import Bib.Blob.RefCount
import Bib.Blob.Threads
import Bib.Lib.Run

/-!
# Bib.Blob.GcRace

**Ingestion against a running mark-and-sweep cycle.** An `IngestChunk` relies on the blob of its chunk from its
existence check (or its own `Put`) on; a cycle has decided to delete a blob from the moment it lists the store.
Nothing relates the two. `stepOk` rules out the two steps by which a blob becomes both
(`ingested_blobs_survive`).
-/

namespace Bib.Blob

open Bib.Lib Bib.Domain List

/-! ### Relying on a blob, and planning to delete it -/

/-- The call has seen or written the blob and has not failed since. -/
def IngestPc.relies : IngestPc → Bool
  | .start | .missing | .done (.error _) => false
  | .blobWritten | .found | .read _ | .stored | .done (.ok _) => true

def Thread.held : Thread → Option String
  | .ingest t => if t.pc.relies then some t.chunk.hash else none
  | _ => none

/-- The hashes a cycle is still going to delete. -/
def Thread.candidates : Thread → List String
  | .sweep t =>
    match t.pc with
    | .sweeping candidates | .blobRemoved _ candidates => candidates.map BlobInfo.hash
    | _ => []
  | _ => []

/-- The blob has readable metadata and has reached the minimum age. -/
def oldEnough (gc : GCConfig) (now : Time) (store : LocalStore) (hash : String) : Bool :=
  match getMetadata hash store with
  | .error _ => false
  | .ok metadata => metadata.createdAt ≤ daysBefore now gc.minAgeDays

def stepOk (w : World) (event : Event) : Bool :=
  match w.threads[event.thread]? with
  | some (.ingest t) =>
    match t.pc with
    -- an existence check does not find a blob that is going to be deleted
    | .start => !(w.sys.store.blobs.get? t.chunk.hash).isSome ||
        w.threads.all fun u => t.chunk.hash ∉ u.candidates
    | _ => true
  | some (.sweep t) =>
    match t.pc with
    -- when the blobs are listed, those relied on were marked or are too new
    | .marked referenced => w.threads.all fun u =>
      u.held.all fun hash => hash ∈ referenced || !oldEnough t.gc event.now w.sys.store hash
    | _ => true
  | _ => true

/-! ### What a step does to blobs -/

def Present (sys : System) (hash : String) : Prop := (sys.store.blobs.get? hash).isSome = true

/-- The steps of ingestions, touches and cycles, as far as blobs are concerned. -/
inductive Effect (env : Env) (now : Time) (sys : System) : Thread → Thread → System → Prop
  /-- No blob changes; the thread relies on and plans to delete at most what it did before. -/
  | quiet {t t' : Thread} {sys' : System} (hblobs : sys'.store.blobs = sys.store.blobs)
      (hheld : t'.held = none ∨ t'.held = t.held) (hcand : t'.candidates.Sublist t.candidates) :
      Effect env now sys t t' sys'
  | found {t : IngestThread} (hpc : t.pc = .start) (hsome : Present sys t.chunk.hash) :
      Effect env now sys (.ingest t) (.ingest { t with pc := .found }) sys
  | put {t : IngestThread} {file : BlobFile} {sys' : System} (habsent : ¬ Present sys t.chunk.hash)
      (hblobs : sys'.store.blobs = sys.store.blobs.set t.chunk.hash file) :
      Effect env now sys (.ingest t) (.ingest { t with pc := .blobWritten }) sys'
  | list {t : SweepThread} {referenced : List String} (hpc : t.pc = .marked referenced) :
      Effect env now sys (.sweep t)
        (.sweep { t with pc := .sweeping (sweepCandidates t.gc now referenced (list sys.store)) }) sys
  | remove {t : SweepThread} {info : BlobInfo} {rest : List BlobInfo} {sys' : System}
      (hpc : t.pc = .sweeping (info :: rest))
      (hblobs : sys'.store.blobs = sys.store.blobs.delete info.hash) :
      Effect env now sys (.sweep t) (.sweep { t with pc := .blobRemoved info rest }) sys'

theorem ingest_effect (env : Env) (now : Time) (t : IngestThread) (sys : System) :
    Effect env now sys (.ingest t) (.ingest (t.step env now sys).1) (t.step env now sys).2 := by
  obtain ⟨chunk, data, nonce, pc⟩ := t
  cases pc with
  | start =>
    unfold IngestThread.step
    dsimp only
    split
    · exact .quiet rfl (.inl rfl) (.refl _)
    · cases hexists : existsBlob chunk.hash sys.store with
      | error error => exact .quiet rfl (.inl rfl) (.refl _)
      | ok found =>
        obtain ⟨-, hsome⟩ := existsBlob_eq_ok.mp hexists
        cases found with
        | true => exact .found rfl hsome
        | false => exact .quiet rfl (.inl rfl) (.refl _)
  | missing =>
    unfold IngestThread.step
    cases hput : putBlob env.cfg env.codec now nonce chunk.hash data sys.store with
    | error error => exact .quiet rfl (.inl rfl) (.refl _)
    | ok store =>
      obtain ⟨-, hnone, content, -, rfl⟩ := putBlob_eq_ok.mp hput
      refine .put (t := ⟨chunk, data, nonce, .missing⟩) (fun hsome => ?_) rfl
      unfold Present at hsome
      rw [hnone] at hsome
      cases hsome
  | found =>
    unfold IngestThread.step
    dsimp only
    split
    · exact .quiet rfl (.inr rfl) (.refl _)
    · split <;> exact .quiet rfl (.inr rfl) (.refl _)
  | stored =>
    unfold IngestThread.step
    dsimp only
    split
    · exact .quiet rfl (.inl rfl) (.refl _)
    · exact .quiet rfl (.inr rfl) (.refl _)
  | _ => exact .quiet rfl (.inr rfl) (.refl _)

theorem touch_effect (env : Env) (now : Time) (t : TouchThread) (sys : System) :
    Effect env now sys (.touch t) (.touch (t.step now sys).1) (t.step now sys).2 := by
  refine .quiet ?_ (.inl rfl) (.refl _)
  obtain ⟨hash, pc⟩ := t
  cases pc with
  | start =>
    unfold TouchThread.step
    dsimp only
    split <;> rfl
  | _ => rfl

theorem sweep_effect (env : Env) (now : Time) (t : SweepThread) (sys : System) :
    Effect env now sys (.sweep t) (.sweep (t.step now sys).1) (t.step now sys).2 := by
  obtain ⟨gc, faults, pc⟩ := t
  cases pc with
  | start =>
    unfold SweepThread.step
    dsimp only
    split <;> exact .quiet rfl (.inl rfl) (.refl _)
  | marked referenced => exact .list (t := ⟨gc, faults, .marked referenced⟩) rfl
  | sweeping candidates =>
    cases candidates with
    | nil => exact .quiet rfl (.inl rfl) (.refl _)
    | cons info rest =>
      unfold SweepThread.step
      dsimp only
      cases hb : removeBlob info.hash sys.store with
      | error error => exact .quiet rfl (.inl rfl) (sublist_cons_self _ _)
      | ok store =>
        obtain ⟨-, file, -, rfl⟩ := removeBlob_eq_ok.mp hb
        exact .remove (t := ⟨gc, faults, .sweeping (info :: rest)⟩) rfl rfl
  | blobRemoved info rest => exact .quiet (removeMeta_eq info.hash sys.store).1 (.inl rfl) (.refl _)
  | done => exact .quiet rfl (.inl rfl) (.refl _)

def Thread.isDelete : Thread → Bool
  | .delete _ => true
  | _ => false

theorem thread_effect (env : Env) (now : Time) (sys : System) {t : Thread} (h : t.isDelete = false) :
    Effect env now sys t (t.step env now sys).1 (t.step env now sys).2 := by
  cases t with
  | ingest t => exact ingest_effect env now t sys
  | delete t => cases h
  | touch t => exact touch_effect env now t sys
  | sweep t => exact sweep_effect env now t sys

/-! ### The invariant -/

def Thread.isSweep : Thread → Bool
  | .sweep _ => true
  | _ => false

def SweepAt (threads : List Thread) (i : Nat) : Prop :=
  ∃ t, threads[i]? = some t ∧ t.isSweep = true

/-- No thread deletes chunks, and at most one is a cycle. -/
structure OneCycle (threads : List Thread) : Prop where
  noDelete : ∀ u ∈ threads, u.isDelete = false
  single : ∀ i j, SweepAt threads i → SweepAt threads j → i = j

/-- Blobs relied on are there, and no cycle plans to delete one of them. -/
structure Safe (sys : System) (threads : List Thread) : Prop where
  held : ∀ u ∈ threads, ∀ hash, u.held = some hash → Present sys hash
  nodup : ∀ u ∈ threads, u.candidates.Nodup
  planned : ∀ u ∈ threads, ∀ hash ∈ u.candidates, Present sys hash
  notHeld : ∀ u ∈ threads, ∀ hash ∈ u.candidates, ∀ v ∈ threads, v.held ≠ some hash

section Invariant

variable {threads : List Thread} {i : Nat} {t t' : Thread} {sys sys' : System}

theorem isSweep_of_candidates {hash : String} (h : hash ∈ t.candidates) : t.isSweep = true := by
  cases t with
  | sweep t => rfl
  | _ => cases h

theorem held_of_isSweep (h : t.isSweep = true) : t.held = none := by
  cases t with
  | sweep t => rfl
  | _ => cases h

theorem sweepAt_set (hg : threads[i]? = some t) (hk : t'.isSweep = t.isSweep) {j : Nat}
    (h : SweepAt (threads.set i t') j) : SweepAt threads j := by
  obtain ⟨u, hu, hs⟩ := h
  rw [getElem?_set] at hu
  split at hu
  next heq =>
    split at hu
    · cases hu
      exact ⟨t, heq ▸ hg, hk ▸ hs⟩
    · cases hu
  next => exact ⟨u, hu, hs⟩

theorem OneCycle.set (h : OneCycle threads) (hg : threads[i]? = some t)
    (hdelete : t'.isDelete = t.isDelete) (hki : t'.isSweep = t.isSweep) :
    OneCycle (threads.set i t') := by
  refine ⟨fun u hu => ?_, fun j k hj hk => ?_⟩
  · rcases mem_set_cases hu with rfl | hu
    · rw [hdelete]
      exact h.noDelete t (mem_of_getElem? hg)
    · exact h.noDelete u hu
  · exact h.single j k (sweepAt_set hg hki hj) (sweepAt_set hg hki hk)

/-- Steps that remove no blob: what the new thread relies on is there and nobody's candidate,
what it plans to delete is there and nobody relies on it. -/
theorem Safe.set (h : Safe sys threads) (hp : ∀ hash, Present sys hash → Present sys' hash)
    (hheld : ∀ hash, t'.held = some hash → Present sys' hash ∧ ∀ u ∈ threads, hash ∉ u.candidates)
    (hn : t'.candidates.Nodup) (hpl : ∀ hash ∈ t'.candidates, Present sys' hash ∧ ∀ v ∈ threads, v.held ≠ some hash) :
    Safe sys' (threads.set i t') := by
  refine ⟨fun u hu hash huh => ?_, fun u hu => ?_, fun u hu hash hh => ?_, ?_⟩
  · rcases mem_set_cases hu with rfl | hu
    · exact (hheld hash huh).1
    · exact hp hash (h.held u hu hash huh)
  · rcases mem_set_cases hu with rfl | hu
    · exact hn
    · exact h.nodup u hu
  · rcases mem_set_cases hu with rfl | hu
    · exact (hpl hash hh).1
    · exact hp hash (h.planned u hu hash hh)
  · intro u hu hash hh v hv hvh
    rcases mem_set_cases hu with rfl | huo
    · rcases mem_set_cases hv with rfl | hvo
      · rw [held_of_isSweep (isSweep_of_candidates hh)] at hvh
        cases hvh
      · exact (hpl hash hh).2 v hvo hvh
    · rcases mem_set_cases hv with rfl | hvo
      · exact (hheld hash hvh).2 u huo hh
      · exact h.notHeld u huo hash hh v hvo hvh

theorem Safe.quiet (h : Safe sys threads) (ht : t ∈ threads)
    (hblobs : sys'.store.blobs = sys.store.blobs) (hheld : t'.held = none ∨ t'.held = t.held)
    (hcand : t'.candidates.Sublist t.candidates) : Safe sys' (threads.set i t') := by
  have hp : ∀ hash, Present sys hash → Present sys' hash := by
    intro hash hold
    unfold Present
    rw [hblobs]
    exact hold
  refine h.set hp (fun hash hnew => ?_) ((h.nodup t ht).sublist hcand)
    (fun hash hh => ⟨hp hash (h.planned t ht hash (hcand.subset hh)),
      h.notHeld t ht hash (hcand.subset hh)⟩)
  rcases hheld with hnone | hs
  · rw [hnone] at hnew
    cases hnew
  · rw [hs] at hnew
    exact ⟨hp hash (h.held t ht hash hnew), fun u hu hh => h.notHeld u hu hash hh t ht hnew⟩

/-- A blob that was not there is nobody's candidate, so a thread may rely on it once written. -/
theorem Safe.put (h : Safe sys threads) {hash : String} {file : BlobFile}
    (hblobs : sys'.store.blobs = sys.store.blobs.set hash file)
    (hheld : ∀ hash', t'.held = some hash' → hash' = hash) (hcand : t'.candidates = [])
    (habsent : ¬ Present sys hash) : Safe sys' (threads.set i t') := by
  have hp : ∀ hash', hash' = hash ∨ Present sys hash' → Present sys' hash' := by
    intro hash' hor
    unfold Present
    rw [hblobs, KeyMap.get?_set]
    by_cases heq : hash' = hash
    · rw [if_pos heq]
      rfl
    · rw [if_neg heq]
      exact hor.resolve_left heq
  refine h.set (fun hash' hold => hp hash' (.inr hold)) (fun hash' hnew => ?_)
    (hcand ▸ nodup_nil) (fun hash' hh => ?_)
  · rw [hheld hash' hnew]
    exact ⟨hp hash (.inl rfl), fun u hu hh => habsent (h.planned u hu hash hh)⟩
  · rw [hcand] at hh
    cases hh

theorem Safe.remove (h : Safe sys threads) (hc : OneCycle threads) (hg : threads[i]? = some t)
    {hash : String} (hcand : t.candidates = hash :: t'.candidates) (hk : t'.isSweep = t.isSweep)
    (hp : ∀ hash', hash' ≠ hash → Present sys hash' → Present sys' hash') :
    Safe sys' (threads.set i t') := by
  have ht : t ∈ threads := mem_of_getElem? hg
  have hs : t.isSweep = true := isSweep_of_candidates (hcand ▸ mem_cons_self)
  have hn := h.nodup t ht
  rw [hcand, nodup_cons] at hn
  have hmem : ∀ hash' ∈ t'.candidates, hash' ∈ t.candidates := fun hash' hh' =>
    hcand ▸ mem_cons_of_mem _ hh'
  -- the only cycle is the one that moves, so all candidates left are its own
  have hown : ∀ u ∈ threads.set i t', ∀ hash' ∈ u.candidates, hash' ∈ t'.candidates := by
    intro u hu hash' hh'
    obtain ⟨j, hj⟩ := mem_iff_getElem?.mp hu
    have hi : j = i := hc.single j i
      (sweepAt_set hg hk ⟨u, hj, isSweep_of_candidates hh'⟩) ⟨t, hg, hs⟩
    rw [hi, List.getElem?_set_self (List.getElem?_eq_some_iff.mp hg).1] at hj
    cases hj
    exact hh'
  have hheld : ∀ v ∈ threads.set i t', ∀ hash', v.held = some hash' → v ∈ threads := by
    intro v hv hash' hvh
    rcases mem_set_cases hv with rfl | hv
    · rw [held_of_isSweep (hk.trans hs)] at hvh
      cases hvh
    · exact hv
  refine ⟨fun u hu hash' huh => ?_, fun u hu => ?_, fun u hu hash' hh' => ?_, ?_⟩
  · have huo := hheld u hu hash' huh
    refine hp hash' (fun heq => ?_) (h.held u huo hash' huh)
    exact h.notHeld t ht hash (hcand ▸ mem_cons_self) u huo (heq ▸ huh)
  · rcases mem_set_cases hu with rfl | hu
    · exact hn.2
    · exact h.nodup u hu
  · have hrest := hown u hu hash' hh'
    exact hp hash' (fun heq => hn.1 (heq ▸ hrest)) (h.planned t ht hash' (hmem hash' hrest))
  · intro u hu hash' hh' v hv hvh
    exact h.notHeld t ht hash' (hmem hash' (hown u hu hash' hh')) v (hheld v hv hash' hvh) hvh

end Invariant

/-! ### What the listing finds -/

theorem list_hashes_nodup (store : LocalStore) : ((list store).map BlobInfo.hash).Nodup := by
  have hs : ∀ rows : List (String × BlobFile), ((rows.filterMap fun p =>
      match getMetadata p.1 store with
      | .error _ => none
      | .ok metadata => some (BlobInfo.mk p.1 metadata.size metadata.createdAt metadata.lastAccessed
          metadata.tags)).map BlobInfo.hash).Sublist (rows.map Prod.fst) := by
    intro rows
    induction rows with
    | nil => exact .refl _
    | cons p rows ih =>
      cases hg : getMetadata p.1 store with
      | error error => simpa [hg] using ih.cons p.1
      | ok metadata => simpa [hg] using ih.cons_cons p.1
  exact store.blobs.nodup.sublist (hs store.blobs.rows)

theorem mem_sweepCandidates {gc : GCConfig} {now : Time} {referenced : List String}
    {store : LocalStore} {hash : String}
    (h : hash ∈ (sweepCandidates gc now referenced (list store)).map BlobInfo.hash) :
    (store.blobs.get? hash).isSome = true ∧ hash ∉ referenced ∧ oldEnough gc now store hash = true := by
  obtain ⟨info, hinfo, rfl⟩ := mem_map.mp h
  obtain ⟨hl, hs⟩ := mem_filter.mp hinfo
  obtain ⟨hsome, metadata, hg, heq⟩ := mem_list.mp hl
  simp only [Bool.not_eq_true', Bool.or_eq_false_iff, decide_eq_false_iff_not] at hs
  refine ⟨hsome, hs.1, ?_⟩
  have hc : info.createdAt = metadata.createdAt := by rw [heq]
  rw [hc] at hs
  unfold oldEnough
  rw [hg]
  exact decide_eq_true (Int.not_lt.mp hs.2)

/-! ### Steps and runs -/

variable {env : Env} {w : World}

theorem safe_step (hc : OneCycle w.threads) (h : Safe w.sys w.threads) {event : Event}
    (hok : stepOk w event = true) : Safe (w.step env event).sys (w.step env event).threads := by
  refine World.step_rule (fun w => Safe w.sys w.threads) h fun t hg => ?_
  have ht : t ∈ w.threads := mem_of_getElem? hg
  have he := thread_effect env event.now w.sys (hc.noDelete t ht)
  generalize t.step env event.now w.sys = result at he ⊢
  obtain ⟨t', sys'⟩ := result
  unfold stepOk at hok
  rw [hg] at hok
  cases he with
  | quiet hblobs hheld hcand => exact h.quiet ht hblobs hheld hcand
  | @found t hpc hsome =>
    refine h.set (fun _ hold => hold) (fun hash hnew => ?_) nodup_nil (fun _ hh => by
      cases hh)
    cases hnew
    simp only [hpc, show (w.sys.store.blobs.get? t.chunk.hash).isSome = true from hsome,
      Bool.not_true, Bool.false_or, all_eq_true, decide_eq_true_eq] at hok
    exact ⟨hsome, hok⟩
  | @put t file _ habsent hblobs =>
    refine h.put hblobs (fun hash hnew => ?_) rfl habsent
    cases hnew
    rfl
  | @list t referenced hpc =>
    refine h.set (fun _ hold => hold) (fun hash hnew => by cases hnew)
      ((list_hashes_nodup w.sys.store).sublist (filter_sublist.map _)) (fun hash hh => ?_)
    obtain ⟨hsome, hu, hold⟩ := mem_sweepCandidates hh
    refine ⟨hsome, fun v hv hvh => ?_⟩
    simp only [hpc, all_eq_true] at hok
    have hv' := hok v hv
    rw [hvh] at hv'
    simp [hu, hold] at hv'
  | @remove t info rest _ hpc hblobs =>
    have hcand : (Thread.sweep t).candidates = info.hash :: rest.map BlobInfo.hash := by
      simp [Thread.candidates, hpc]
    refine h.remove hc hg hcand rfl ?_
    intro hash hne hold
    unfold Present
    rw [hblobs, KeyMap.get?_delete, if_neg hne]
    exact hold

theorem oneCycle_step (h : OneCycle w.threads) (event : Event) : OneCycle (w.step env event).threads := by
  refine World.step_rule (fun w => OneCycle w.threads) h fun t hg => ?_
  cases t <;> exact h.set hg rfl rfl

structure RaceInv (w : World) : Prop where
  oneCycle : OneCycle w.threads
  safe : Safe w.sys w.threads

theorem raceInv_step (h : RaceInv w) {event : Event} (hok : stepOk w event = true) : RaceInv (w.step env event) :=
  ⟨oneCycle_step h.oneCycle event, safe_step h.oneCycle h.safe hok⟩

/-! ### One cycle and any number of ingestions -/

structure IngestCall where
  chunk : Chunk
  data : Bytes
  nonce : Nonce

def gcWorld (gc : GCConfig) (faults : DbFaults) (calls : List IngestCall) (sys : System) : World :=
  { sys
    threads := .sweep ⟨gc, faults, .start⟩ ::
      calls.map fun call => .ingest ⟨call.chunk, call.data, call.nonce, .start⟩ }

section Start

variable {gc : GCConfig} {faults : DbFaults} {calls : List IngestCall} {sys : System} {u : Thread}

theorem gcWorld_threads (h : u ∈ (gcWorld gc faults calls sys).threads) :
    u = .sweep ⟨gc, faults, .start⟩ ∨
      ∃ call ∈ calls, u = .ingest ⟨call.chunk, call.data, call.nonce, .start⟩ := by
  rcases mem_cons.mp h with heq | hmem
  · exact .inl heq
  · obtain ⟨call, hcall, heq⟩ := mem_map.mp hmem
    exact .inr ⟨call, hcall, heq.symm⟩

theorem gcWorld_oneCycle : OneCycle (gcWorld gc faults calls sys).threads := by
  refine ⟨fun u hu => ?_, ?_⟩
  · rcases gcWorld_threads hu with rfl | ⟨call, -, rfl⟩ <;> rfl
  · have hz : ∀ i, SweepAt (gcWorld gc faults calls sys).threads i → i = 0 := by
      intro i hi
      cases i with
      | zero => rfl
      | succ i =>
        obtain ⟨u, hu, hs⟩ := hi
        obtain ⟨call, -, rfl⟩ := mem_map.mp (mem_of_getElem? hu)
        cases hs
    intro i j hi hj
    rw [hz i hi, hz j hj]

theorem gcWorld_idle (h : u ∈ (gcWorld gc faults calls sys).threads) : u.held = none ∧ u.candidates = [] := by
  rcases gcWorld_threads h with rfl | ⟨call, -, rfl⟩
  · exact ⟨rfl, rfl⟩
  · exact ⟨rfl, rfl⟩

theorem gcWorld_safe : Safe sys (gcWorld gc faults calls sys).threads := by
  refine ⟨fun u hu hash hheld => ?_, fun u hu => ?_, fun u hu hash hh => ?_, ?_⟩
  · rw [(gcWorld_idle hu).1] at hheld
    cases hheld
  · rw [(gcWorld_idle hu).2]
    exact nodup_nil
  · rw [(gcWorld_idle hu).2] at hh
    cases hh
  · intro u hu hash hh
    rw [(gcWorld_idle hu).2] at hh
    cases hh

end Start

theorem held_of_ingested {u : Thread} {chunk : Chunk} (h : u.ingested = some chunk) : u.held = some chunk.hash := by
  unfold Thread.ingested at h
  split at h
  next t =>
    split at h
    next hpc =>
      cases h
      simp only [Thread.held, hpc, IngestPc.relies, if_true]
    next => cases h
  next => cases h

/-! ### The result -/

/-- In every state of a run without the two racing steps, the chunks ingested so far have
their blobs. -/
theorem ingested_blobs_survive (env : Env) (gc : GCConfig) (faults : DbFaults)
    (calls : List IngestCall) (sys : System) (events : List Event)
    (hok : Run.AllSteps (World.step env) (fun w event => stepOk w event = true)
      (gcWorld gc faults calls sys) events) (n : Nat) :
    ∀ u ∈ ((gcWorld gc faults calls sys).run env (events.take n)).threads, ∀ chunk,
      u.ingested = some chunk →
        Present ((gcWorld gc faults calls sys).run env (events.take n)).sys chunk.hash := by
  intro u hu chunk hi
  have hin := Run.invariant_of_allSteps RaceInv (fun _ _ h hstep => raceInv_step h hstep)
    ⟨gcWorld_oneCycle, gcWorld_safe⟩ hok n
  exact hin.safe.held u hu chunk.hash (held_of_ingested hi)

def eagerGc : GCConfig := { minAgeDays := 0, trashRetentionDays := 30 }

def ingestThenCycle : List Event :=
  [⟨1, 1⟩, ⟨1, 1⟩, ⟨1, 1⟩, ⟨1, 1⟩, ⟨2, 0⟩, ⟨2, 0⟩, ⟨2, 0⟩]

theorem ingested_blobs_survive_cycle :
    let w := gcWorld eagerGc .none [⟨sampleChunk, [7], zeroNonce⟩] ⟨.fresh, sampleDb.withoutChunks⟩
    Run.AllSteps (World.step sampleEnv) (fun w event => stepOk w event = true) w ingestThenCycle ∧
      Present (w.run sampleEnv (ingestThenCycle.take 7)).sys sampleHash := by
  intro w
  have hok : Run.AllSteps (World.step sampleEnv) (fun w event => stepOk w event = true) w
      ingestThenCycle := by decide +kernel
  have hd : ∃ u ∈ (w.run sampleEnv (ingestThenCycle.take 7)).threads,
      u.ingested = some sampleChunk := by decide +kernel
  obtain ⟨u, hu, hi⟩ := hd
  exact ⟨hok, ingested_blobs_survive _ _ _ _ _ _ hok 7 u hu sampleChunk hi⟩

/-- An ingestion finds an old blob, the cycle marks, the row is inserted, the cycle sweeps. -/
def racingSchedule : List Event :=
  [⟨1, 1⟩, ⟨1, 1⟩, ⟨1, 1⟩, ⟨2, 0⟩, ⟨2, 1⟩, ⟨3, 0⟩, ⟨3, 0⟩, ⟨3, 0⟩, ⟨3, 0⟩]

/-- No query fails, everything finishes, and the blob of the ingested chunk is gone. -/
theorem cycle_deletes_ingested_blob :
    let chunk := { sampleChunk with id := "c2", index := 1 }
    let w := (gcWorld eagerGc .none [⟨chunk, [7], zeroNonce⟩]
      ⟨sampleStore, sampleDb.withoutChunks⟩).run sampleEnv racingSchedule
    (∀ u ∈ w.threads, u.finished = true) ∧ (∃ u ∈ w.threads, u.ingested = some chunk) ∧
      ¬ Present w.sys chunk.hash := by
  unfold Present
  decide +kernel

end Bib.Blob
