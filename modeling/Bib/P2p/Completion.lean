import Bib.Lib.Run
import Bib.P2p.Transfer
import Mathlib.Data.List.Dedup

/-!
# Bib.P2p.Completion

**What a completed download says about its data.** A completed download has one accepted chunk for every index,
and the data of each hashes to the hash the *same* peer sent with it. Neither the index inside the chunk nor the
hash of the dataset is ever compared with anything, so whatever can be downloaded can be forged
(`carriesRequestedData_iff`). Through `ProtocolClient.GetChunk`, which never delivers `Data`, no chunk is
accepted.
-/

namespace Bib.P2p

open Bib.Lib Bib.Domain List

open Download (mem_missingChunks setChunkCompleted)

open ActiveDownload (step)

/-! ### The invariant of a run -/

/-- What has been checked of a chunk that was accepted for an index. -/
structure Accepted (env : Env) (peers : List String) (total : Int) (i : Int) (chunk : Chunk) : Prop where
  nonneg : 0 ≤ i
  lt : i < total
  verified : verifyChunk env.sha256Hex chunk = true
  delivered : ∃ sent, chunk = env.delivery.decode sent
  peer : selectPeer env.cfg peers i ≠ ""
  retries : 0 < env.cfg.maxRetries
  workers : 0 < env.cfg.maxConcurrentChunks

/-- Every bit of the bitmap, and so every completion, is backed by accepted chunks. -/
structure Inv (env : Env) (req : Request) (ad : ActiveDownload) : Prop where
  total : ad.download.totalChunks = req.totalChunks
  peers : ad.peers = req.peers
  work : ∀ i ∈ ad.work, 0 ≤ i ∧ i < req.totalChunks
  trying : ∀ i retry lastErr, .trying i retry lastErr ∈ ad.workers → 0 ≤ i ∧ i < req.totalChunks
  pool : ∀ worker ∈ ad.workers, 0 < env.cfg.maxConcurrentChunks
  received : ∀ p ∈ ad.received, Accepted env req.peers req.totalChunks p.1 p.2
  marked : ∀ i, ad.download.isChunkCompleted i = true → ∃ chunk, (i, chunk) ∈ ad.received
  counted : ad.download.completedChunks ≤ Bitmap.count ad.download.chunkBitmap
  completed : ad.download.status = .completed → ∀ i, 0 ≤ i → i < req.totalChunks →
    ∃ chunk, (i, chunk) ∈ ad.received

variable {env : Env} {req : Request} {ad : ActiveDownload}

theorem startDownload_fresh (h : startDownload req = some ad) :
    ad.phase = .starting ∧ ad.cancelled = false ∧ ad.download.totalChunks = req.totalChunks ∧
      ad.download.completedChunks = 0 ∧ ∀ i, ad.download.isChunkCompleted i = false := by
  unfold startDownload at h
  dsimp only at h
  split at h
  · cases h
  · cases h
    simp [Download.isChunkCompleted, Bitmap.test_replicate_zero]

theorem inv_start (env : Env) (h : startDownload req = some ad) : Inv env req ad := by
  unfold startDownload at h
  dsimp only at h
  split at h
  · cases h
  · cases h
    refine ⟨rfl, rfl, ?_, ?_, ?_, ?_, fun i hi => ?_, Int.natCast_nonneg _, fun hs => ?_⟩
    · simp
    · simp
    · simp
    · simp
    · simp [Download.isChunkCompleted, Bitmap.test_replicate_zero] at hi
    · cases hs

variable {d : Download} {peers : List String} {i : Int} {rest : List Worker}

theorem isChunkCompleted_of_missing_nil (h : d.missingChunks.length = 0) {i : Int}
    (hi : 0 ≤ i) (hlt : i < d.totalChunks) : d.isChunkCompleted i = true := by
  by_contra hne
  have hmem := mem_missingChunks.mpr ⟨hi, hlt, Bool.eq_false_iff.mpr hne⟩
  rw [length_eq_zero_iff.mp h] at hmem
  cases hmem

theorem inv_begin (h : Inv env req ad) : Inv env req (begin env ad) := by
  unfold begin
  dsimp only
  split
  next hn =>
    refine { h with completed := fun _ i hi hlt => ?_ }
    exact h.marked i (isChunkCompleted_of_missing_nil hn hi (h.total ▸ hlt))
  next =>
    refine { h with work := fun i hi => ?_, trying := fun i retry lastErr hmem => ?_, pool := ?_ }
    · obtain ⟨hno, hlt, -⟩ := mem_missingChunks.mp hi
      exact ⟨hno, h.total ▸ hlt⟩
    · cases eq_of_mem_replicate hmem
    · intro worker hmem
      have hp : _ ≠ 0 := (mem_replicate.mp hmem).1
      split at hp <;> omega

/-- A step that only changes the queue, the error map and the worker that makes it. -/
theorem Inv.moveWorker (h : Inv env req ad) {i : Nat} {old new : Worker}
    (hg : ad.workers[i]? = some old) {work : List Int} {chunkErrors : KeyMap Int TransferError}
    (hw : ∀ j ∈ work, j ∈ ad.work)
    (hnew : ∀ j retry lastErr, new = .trying j retry lastErr → 0 ≤ j ∧ j < req.totalChunks) :
    Inv env req { ad with work, chunkErrors, workers := ad.workers.set i new } := by
  refine { h with
    work := fun j hj => h.work j (hw j hj), trying := fun j retry lastErr hmem => ?_
    pool := fun worker _ => h.pool old (mem_of_getElem? hg) }
  rcases mem_or_eq_of_mem_set hmem with hold | heq
  · exact h.trying j retry lastErr hold
  · exact hnew j retry lastErr heq.symm

theorem attempt_eq_accepted {answer : Except String Chunk}
    {chunk : Chunk} (h : attempt env peers i answer = .accepted chunk) :
    selectPeer env.cfg peers i ≠ "" ∧ verifyChunk env.sha256Hex chunk = true ∧
      ∃ sent, answer = .ok sent ∧ chunk = env.delivery.decode sent := by
  unfold attempt at h
  split at h
  · cases h
  next hp =>
    split at h
    · cases h
    next sent =>
      dsimp only at h
      split at h
      · cases h
      next hverify =>
        cases h
        exact ⟨hp, by simpa using hverify, sent, rfl, rfl⟩

theorem Inv.accept (h : Inv env req ad) {i : Nat} {index : Int} {retry : Nat}
    {lastErr : Option TransferError} (hg : ad.workers[i]? = some (.trying index retry lastErr))
    (hr : (retry : Int) < env.cfg.maxRetries) {answer : Except String Chunk} {chunk : Chunk}
    (ha : attempt env ad.peers index answer = .accepted chunk) : Inv env req { ad with
      download := ad.download.setChunkCompleted index
      received := ad.received ++ [(index, chunk)]
      workers := ad.workers.set i .idle } := by
  have hmem := mem_of_getElem? hg
  obtain ⟨hn, hlt⟩ := h.trying index retry lastErr hmem
  obtain ⟨hpe, hverify, sent, -, hse⟩ := attempt_eq_accepted ha
  rw [h.peers] at hpe
  refine
    { total := by simp [h.total], peers := h.peers, work := h.work
      trying := fun j r e hj => ?_
      pool := fun worker _ => h.pool _ hmem
      received := fun p hp => ?_
      marked := fun j hj => ?_
      counted := Download.completedChunks_set_le _ h.counted index
      completed := fun hs j hj hjl => ?_ }
  · rcases mem_or_eq_of_mem_set hj with hold | heq
    · exact h.trying j r e hold
    · cases heq
  · rcases mem_append.mp hp with hold | hnew
    · exact h.received p hold
    · cases mem_singleton.mp hnew
      exact ⟨hn, hlt, hverify, ⟨sent, hse⟩, hpe, by omega, h.pool _ hmem⟩
  · rw [Download.isChunkCompleted_set _ hn, Bool.or_eq_true, decide_eq_true_eq] at hj
    rcases hj with hold | heq
    · obtain ⟨c, hc⟩ := h.marked j hold
      exact ⟨c, mem_append_left _ hc⟩
    · exact ⟨chunk, mem_append_right _ (heq ▸ mem_singleton_self _)⟩
  · rw [Download.setChunkCompleted_status] at hs
    obtain ⟨c, hc⟩ := h.completed hs j hj hjl
    exact ⟨c, mem_append_left _ hc⟩

theorem inv_workerStep (h : Inv env req ad) {i : Nat} {worker : Worker}
    (hg : ad.workers[i]? = some worker) (answer : Except String Chunk) :
    Inv env req (workerStep env i answer worker ad) := by
  cases worker with
  | idle =>
    simp only [workerStep]
    split
    next hn => exact h.moveWorker hg (fun j hj => hj) (fun _ _ _ heq => by cases heq)
    next index rest hw =>
      have hmem : index ∈ ad.work := by simp [hw]
      have hrest : ∀ j ∈ rest, j ∈ ad.work := fun j hj => by simp [hw, hj]
      split
      · exact h.moveWorker hg hrest (fun _ _ _ heq => by cases heq)
      · refine h.moveWorker hg hrest (fun _ _ _ heq => ?_)
        cases heq
        exact h.work index hmem
  | trying index retry lastErr =>
    have hr := h.trying index retry lastErr (mem_of_getElem? hg)
    simp only [workerStep]
    split
    next hre =>
      cases ha : attempt env ad.peers index answer with
      | failed error => exact h.moveWorker hg (fun j hj => hj) (fun _ _ _ heq => by cases heq)
      | again error =>
        refine h.moveWorker hg (fun j hj => hj) (fun _ _ _ heq => ?_)
        cases heq
        exact hr
      | accepted chunk => exact h.accept hg hre ha
    next =>
      split
      · exact h.moveWorker hg (fun j hj => hj) (fun _ _ _ heq => by cases heq)
      · exact h.moveWorker hg (fun j hj => hj) (fun _ _ _ heq => by cases heq)
  | exited => exact h

theorem inv_conclude (h : Inv env req ad) (pick : Nat) : Inv env req (conclude pick ad) := by
  unfold conclude
  split
  next hc =>
    refine { h with completed := fun _ i hi hlt => h.marked i ?_ }
    refine Download.completed_of_isComplete hc h.counted (fun j hj => ?_) hi (h.total ▸ hlt)
    obtain ⟨chunk, hchunk⟩ := h.marked j (by rw [Download.isChunkCompleted_natCast]; exact hj)
    exact h.total ▸ (h.received _ hchunk).lt
  next =>
    split
    · exact { h with }
    · exact { h with marked := h.marked, counted := h.counted, completed := fun hs => by cases hs }

theorem inv_step (h : Inv env req ad) (event : Event) : Inv env req (ad.step env event) := by
  cases event with
  | begin =>
    simp only [step]
    split
    · exact inv_begin h
    · exact h
  | work i answer =>
    simp only [step]
    split
    · exact h
    next worker hg => exact inv_workerStep h hg answer
  | cancel pause =>
    simp only [step]
    split
    · exact { h with marked := h.marked, counted := h.counted, completed := fun hs => by cases hs }
    · exact { h with }
  | conclude pick =>
    simp only [step]
    split
    · exact inv_conclude h pick
    · exact h

theorem inv_run (h : Inv env req ad) (events : List Event) : Inv env req (ad.run env events) := by
  exact Run.invariant (Inv env req) (fun _ => True) (fun _ event _ h => inv_step h event) h
    (fun _ _ => trivial)

/-! ### A forged download -/

/-- A chunk that passes `verifyChunk` and belongs somewhere else. -/
def forgedChunk (sha256Hex : Bytes → String) (i : Int) : Chunk :=
  { id := "", datasetID := "", versionID := "", index := i + 1, hash := sha256Hex [0], size := 1
    status := .downloaded, storagePath := "", data := [0] }

/-- The first worker takes a chunk, and the peer answers with a forged one. -/
def forgeOne (env : Env) (i : Int) : List Event :=
  [.work 0 (.ok (forgedChunk env.sha256Hex i)), .work 0 (.ok (forgedChunk env.sha256Hex i))]

/-- The configuration lets chunks through, and every chunk is requested from some peer. -/
structure CanReceive (env : Env) (req : Request) : Prop where
  delivery : env.delivery = .withData
  retries : 0 < env.cfg.maxRetries
  workers : 0 < env.cfg.maxConcurrentChunks
  peer : ∀ i, 0 ≤ i → i < req.totalChunks → selectPeer env.cfg req.peers i ≠ ""

theorem run_append (env : Env) (ad : ActiveDownload) (events events' : List Event) :
    ad.run env (events ++ events') = (ad.run env events).run env events' :=
  foldl_append

theorem run_forgeOne {work : List Int} (hwo : ad.work = i :: work)
    (hw : ad.workers = .idle :: rest) (hru : ad.cancelled = false)
    (hd : env.delivery = .withData) (hr : 0 < env.cfg.maxRetries)
    (hp : selectPeer env.cfg ad.peers i ≠ "") : ad.run env (forgeOne env i) =
      { ad with
        work
        download := ad.download.setChunkCompleted i
        received := ad.received ++ [(i, forgedChunk env.sha256Hex i)] } := by
  simp [ActiveDownload.run, step, forgeOne, workerStep, hwo, hw, hru,
    hr, attempt, hp, hd, Delivery.decode, verifyChunk, forgedChunk]

theorem run_forgeAll {indices : List Int} (hwo : ad.work = indices)
    (hw : ad.workers = .idle :: rest) (hru : ad.cancelled = false)
    (hd : env.delivery = .withData) (hr : 0 < env.cfg.maxRetries)
    (hp : ∀ i ∈ indices, selectPeer env.cfg ad.peers i ≠ "") :
    ad.run env (indices.flatMap (forgeOne env)) =
      { ad with
        work := []
        download := indices.foldl setChunkCompleted ad.download
        received := ad.received ++ indices.map fun i => (i, forgedChunk env.sha256Hex i) } := by
  induction indices generalizing ad with
  | nil =>
    cases ad
    cases hwo
    simp [ActiveDownload.run]
  | cons i indices ih =>
    rw [flatMap_cons, run_append, run_forgeOne hwo hw hru hd hr (hp i mem_cons_self), ih]
    · simp
    · rfl
    · exact hw
    · exact hru
    · exact fun j hj => hp j (mem_cons_of_mem i hj)

theorem run_exits (hwo : ad.work = []) (answer : Except String Chunk) (pre : List Worker)
    (n : Nat) (hw : ad.workers = pre ++ replicate n .idle) :
    ad.run env ((range' pre.length n).map fun i => .work i answer) =
      { ad with workers := pre ++ replicate n .exited } := by
  induction n generalizing ad pre with
  | zero =>
    rw [replicate_zero] at hw ⊢
    rw [← hw]
    rfl
  | succ n ih =>
    have hstep : ad.step env (.work pre.length answer) =
        { ad with workers := (pre ++ [.exited]) ++ replicate n .idle } := by
      simp [step, workerStep, hwo, hw, replicate_succ]
    have hlen : pre.length + 1 = (pre ++ [Worker.exited]).length := by simp
    change (ad.step env _).run env _ = _
    rw [hstep, hlen, ih (by exact hwo) _ rfl]
    simp [replicate_succ]

theorem isChunkCompleted_foldl (d : Download) {indices : List Int} (h : ∀ i ∈ indices, 0 ≤ i)
    (j : Int) : (indices.foldl setChunkCompleted d).isChunkCompleted j =
      (d.isChunkCompleted j || decide (j ∈ indices)) := by
  induction indices generalizing d with
  | nil => simp
  | cons i indices ih =>
    rw [foldl_cons, ih _ fun k hk => h k (mem_cons_of_mem i hk),
      Download.isChunkCompleted_set d (h i mem_cons_self), Bool.or_assoc]
    simp [mem_cons, eq_comm]

theorem totalChunks_foldl (d : Download) (indices : List Int) :
    (indices.foldl setChunkCompleted d).totalChunks = d.totalChunks := by
  induction indices generalizing d with
  | nil => rfl
  | cons i indices ih => rw [foldl_cons, ih, Download.setChunkCompleted_total]

theorem booked_foldl (hd : d.Booked) {indices : List Int}
    (h : ∀ i ∈ indices, 0 ≤ i ∧ i < d.totalChunks) : (indices.foldl setChunkCompleted d).Booked := by
  induction indices generalizing d with
  | nil => exact hd
  | cons i indices ih =>
    obtain ⟨⟨hi, hlt⟩, hrest⟩ := forall_mem_cons.mp h
    exact ih (hd.set hi hlt) (by rwa [Download.setChunkCompleted_total])

theorem missingChunks_foldl (hnew : ∀ i, d.isChunkCompleted i = false) {indices : List Int}
    (h : ∀ i ∈ indices, 0 ≤ i ∧ i < d.totalChunks) :
    (indices.foldl setChunkCompleted d).missingChunks =
      ((range d.totalChunks.toNat).map fun (i : Nat) => (i : Int)).filter (· ∉ indices) := by
  rw [Download.missingChunks, totalChunks_foldl]
  refine filter_congr fun i _ => ?_
  rw [isChunkCompleted_foldl d (fun i hi => (h i hi).1), hnew, Bool.false_or, decide_not]

/-- A new download of some chunks is complete once all of them are marked. -/
theorem isComplete_foldl (hp : 0 < d.totalChunks) (hz : d.completedChunks = 0)
    (hnew : ∀ i, d.isChunkCompleted i = false) :
    (d.missingChunks.foldl setChunkCompleted d).isComplete = true := by
  have hmem : ∀ i, i ∈ d.missingChunks ↔ 0 ≤ i ∧ i < d.totalChunks := by
    intro i
    simp [mem_missingChunks, hnew i]
  refine ((booked_foldl (.of_fresh hz hnew) fun i hi => (hmem i).mp hi).isComplete_iff ?_).mpr ?_
  · rwa [totalChunks_foldl]
  · rw [missingChunks_foldl hnew fun i hi => (hmem i).mp hi]
    simp [hmem]

theorem run_forged (ad : ActiveDownload) {n : Nat} (hp : ad.phase = .working) (hru : ad.cancelled = false)
    (hwo : ad.work = ad.download.missingChunks) (hw : ad.workers = replicate (n + 1) .idle)
    (hpo : 0 < ad.download.totalChunks) (hz : ad.download.completedChunks = 0)
    (hnew : ∀ i, ad.download.isChunkCompleted i = false)
    (hd : env.delivery = .withData) (hr : 0 < env.cfg.maxRetries)
    (hpe : ∀ i ∈ ad.download.missingChunks, selectPeer env.cfg ad.peers i ≠ "") :
    ∃ events, (ad.run env events).download.status = .completed ∧ (ad.run env events).received =
        ad.received ++ ad.download.missingChunks.map fun i => (i, forgedChunk env.sha256Hex i) := by
  have hf := run_forgeAll hwo hw hru hd hr hpe
  generalize hm : ad.run env (ad.download.missingChunks.flatMap (forgeOne env)) = mid at hf
  have he : mid.run env ((range' 0 (n + 1)).map fun i => .work i (.error "")) =
      { mid with workers := replicate (n + 1) .exited } :=
    run_exits (by rw [hf]) (.error "") [] (n + 1) (by rw [hf]; exact hw)
  refine ⟨ad.download.missingChunks.flatMap (forgeOne env) ++
    ((range' 0 (n + 1)).map fun i => .work i (.error "")) ++ [.conclude 0], ?_⟩
  rw [run_append, run_append, hm, he, hf]
  change (step env _ (.conclude 0)).download.status = _ ∧ (step env _ (.conclude 0)).received = _
  simp only [step]
  rw [if_pos ⟨hp, fun _ hmem => eq_of_mem_replicate hmem⟩, conclude, if_pos (isComplete_foldl hpo hz hnew)]
  exact ⟨rfl, rfl⟩

theorem exists_forged_run (hc : CanReceive env req) (hpo : 0 < req.totalChunks) (hs : startDownload req = some ad) :
    ∃ events, (ad.run env events).download.status = .completed ∧
      ∃ p ∈ (ad.run env events).received, p.2.index ≠ p.1 := by
  have hin := inv_start env hs
  obtain ⟨hp, hru, ht, hz, hb⟩ := startDownload_fresh hs
  have hmem : ∀ i, i ∈ ad.download.missingChunks ↔ 0 ≤ i ∧ i < req.totalChunks := by
    intro i
    simp [mem_missingChunks, hb i, hin.total]
  have hf : (0 : Int) ∈ ad.download.missingChunks := (hmem 0).mpr ⟨Int.le_refl 0, hpo⟩
  have hlen : ad.download.missingChunks.length ≠ 0 := length_pos_of_mem hf |>.ne'
  -- after `begin` everything is queued, and there is at least one worker
  obtain ⟨n, hbegin⟩ : ∃ n, ad.step env .begin =
      { ad with
        phase := .working
        work := ad.download.missingChunks
        workers := replicate (n + 1) .idle } := by
    have hw := hc.workers
    simp only [step, hp, if_true, begin, hlen, if_false]
    split
    · exact ⟨ad.download.missingChunks.length - 1, by congr; omega⟩
    · exact ⟨env.cfg.maxConcurrentChunks.toNat - 1, by congr; omega⟩
  obtain ⟨events, hst, hr⟩ := run_forged (ad.step env .begin) (n := n)
    (by rw [hbegin]) (by rw [hbegin]; exact hru) (by rw [hbegin]) (by rw [hbegin])
    (by rw [hbegin]; exact ht ▸ hpo) (by rw [hbegin]; exact hz) (by rw [hbegin]; exact hb) hc.delivery hc.retries
    (by
      intro i hi
      rw [hbegin] at hi ⊢
      obtain ⟨hn, hlt⟩ := (hmem i).mp hi
      exact hin.peers ▸ hc.peer i hn hlt)
  refine ⟨.begin :: events, hst, (0, forgedChunk env.sha256Hex 0), ?_, ?_⟩
  · change _ ∈ ((ad.step env .begin).run env events).received
    rw [hr, hbegin]
    exact mem_append_right _ (mem_map_of_mem hf)
  · simp [forgedChunk]

/-! ### The result -/

/-- The content of the download is what was requested, whatever the peers answer and however
the workers interleave. -/
def CarriesRequestedData (env : Env) (req : Request) : Prop :=
  ∀ ad, startDownload req = some ad → ∀ events,
    (ad.run env events).download.status = .completed →
      (∀ p ∈ (ad.run env events).received, p.2.index = p.1) ∧
        env.sha256Hex (ad.run env events).content = req.hash

theorem startDownload_eq_none_iff : startDownload req = none ↔ req.totalChunks ≤ -15 := by
  have hd : (req.totalChunks + 7).tdiv 8 < 0 ↔ req.totalChunks ≤ -15 := by
    rcases Int.le_total 0 (req.totalChunks + 7) with hle | hle
    · rw [Int.tdiv_eq_ediv_of_nonneg hle]
      omega
    · rw [← Int.neg_neg (req.totalChunks + 7), Int.neg_tdiv, Int.tdiv_eq_ediv_of_nonneg (by omega)]
      omega
  rw [← hd]
  unfold startDownload
  dsimp only
  split
  next hn => simp [hn]
  next hn => simp [hn]

/-- **The bookkeeping of chunks is exact**: the count is that of the different indices, the missing ones are
the others in ascending order, and a download is complete exactly if none is missing. -/
theorem bookkeeping_exact (req : Request) (hn : 0 < req.totalChunks) (indices : List Int)
    (h : ∀ i ∈ indices, 0 ≤ i ∧ i < req.totalChunks) :
    ∃ ad, startDownload req = some ad ∧
      let d := indices.foldl Download.setChunkCompleted ad.download
      d.completedChunks = indices.dedup.length ∧
        d.missingChunks = ((range req.totalChunks.toNat).map fun (i : Nat) => (i : Int)).filter (· ∉ indices) ∧
        (d.isComplete = true ↔ d.missingChunks = []) := by
  have hs : startDownload req ≠ none := by
    rw [Ne, startDownload_eq_none_iff]
    omega
  obtain ⟨ad, hs⟩ := Option.ne_none_iff_exists'.mp hs
  obtain ⟨-, -, ht, hz, hnew⟩ := startDownload_fresh hs
  rw [← ht] at h hn
  have hb := booked_foldl (.of_fresh hz hnew) h
  -- the bits below the total and the different indices are the same numbers, without duplicates
  have hp : ((range ad.download.totalChunks.toNat).map fun (i : Nat) => (i : Int)).filter (· ∈ indices) |>.Perm
      indices.dedup := by
    refine (perm_ext_iff_of_nodup ((nodup_range.map fun _ _ => Int.ofNat_inj.mp).filter _)
      (nodup_dedup indices)).mpr ?_
    intro i
    simp only [mem_filter, mem_map, mem_range, mem_dedup, decide_eq_true_eq]
    refine ⟨And.right, fun hi => ⟨⟨i.toNat, ?_, ?_⟩, hi⟩⟩ <;> have := h i hi <;> omega
  refine ⟨ad, hs, ?_, ht ▸ missingChunks_foldl hnew h, hb.isComplete_iff (by rwa [totalChunks_foldl])⟩
  rw [hb.count, Bitmap.count_eq_of_bound hb.bound, totalChunks_foldl, ← hp.length_eq, ← countP_eq_length_filter,
    countP_map]
  refine congrArg _ (countP_congr fun i _ => ?_)
  rw [← Download.isChunkCompleted_natCast, isChunkCompleted_foldl _ fun i hi => (h i hi).1]
  simp [hnew]

/-- Five of nine chunks, with repetitions. -/
theorem bookkeeping_exact_nine : ∃ ad, startDownload ⟨"", "", "", 9, []⟩ = some ad ∧
    let d := [8, 0, 3, 8, 1, 0, 7].foldl Download.setChunkCompleted ad.download
    d.completedChunks = 5 ∧ d.missingChunks = [2, 4, 5, 6] ∧ (d.isComplete = true ↔ d.missingChunks = []) :=
  bookkeeping_exact ⟨"", "", "", 9, []⟩ (by decide) [8, 0, 3, 8, 1, 0, 7] (by decide)

section

variable (hs : startDownload req = some ad) (events : List Event)
include hs events

theorem received_eq_nil (h : req.totalChunks ≤ 0) : (ad.run env events).received = [] := by
  have hi := inv_run (inv_start env hs) events
  rw [eq_nil_iff_forall_not_mem]
  intro p hp
  have hn := (hi.received p hp).nonneg
  have hlt := (hi.received p hp).lt
  omega

theorem content_eq_nil (h : req.totalChunks ≤ 0) : (ad.run env events).content = [] := by
  have ht := (inv_run (inv_start env hs) events).total
  have hz : (ad.run env events).download.totalChunks.toNat = 0 := by omega
  simp [ActiveDownload.content, hz]

theorem canReceive_of_completed (hp : 0 < req.totalChunks) (hst : (ad.run env events).download.status = .completed) :
    CanReceive env req := by
  have hin := inv_run (inv_start env hs) events
  have hall := hin.completed hst
  obtain ⟨chunk, hchunk⟩ := hall 0 (Int.le_refl 0) hp
  have hf := hin.received _ hchunk
  refine ⟨?_, hf.retries, hf.workers, fun i hi hlt => ?_⟩
  · cases hd : env.delivery with
    | withData => rfl
    | withoutData =>
      -- a chunk without data does not pass `verifyChunk`
      obtain ⟨sent, heq⟩ := hf.delivered
      have hverify := hf.verified
      rw [heq, hd] at hverify
      simp [Delivery.decode, verifyChunk] at hverify
  · obtain ⟨chunk, hchunk⟩ := hall i hi hlt
    exact (hin.received _ hchunk).peer

end

/-- Completed downloads carry the requested data for all answers of the peers exactly when no chunk
can be received, or there is none and the empty content was requested. -/
theorem carriesRequestedData_iff (env : Env) (req : Request) : CarriesRequestedData env req ↔
      (0 < req.totalChunks ∧ ¬ CanReceive env req) ∨
        (req.totalChunks ≤ 0 ∧ (req.totalChunks ≤ -15 ∨ env.sha256Hex [] = req.hash)) := by
  rcases Int.lt_or_le 0 req.totalChunks with hpo | hle
  · have hsome : ∃ ad, startDownload req = some ad := by
      rw [← Option.ne_none_iff_exists', Ne, startDownload_eq_none_iff]
      omega
    obtain ⟨ad, hs⟩ := hsome
    constructor
    · intro hca
      refine .inl ⟨hpo, fun hc => ?_⟩
      obtain ⟨events, hst, p, hp, hne⟩ := exists_forged_run hc hpo hs
      exact hne ((hca ad hs events hst).1 p hp)
    · intro hco ad' hs' events hst
      have hno : ¬ CanReceive env req := by
        rcases hco with ⟨-, hno⟩ | ⟨hle, -⟩
        · exact hno
        · omega
      exact absurd (canReceive_of_completed hs' events hpo hst) hno
  · constructor
    · intro hca
      refine .inr ⟨hle, ?_⟩
      cases hs : startDownload req with
      | none => exact .inl (startDownload_eq_none_iff.mp hs)
      | some ad =>
        have hm : ad.download.missingChunks.length = 0 := by
          have ht := (inv_start env hs).total
          rw [length_eq_zero_iff, eq_nil_iff_forall_not_mem]
          intro i hi
          obtain ⟨hn, hlt, -⟩ := Download.mem_missingChunks.mp hi
          omega
        have hph : ad.phase = .starting := (startDownload_fresh hs).1
        have hst : (ad.run env [.begin]).download.status = .completed := by
          simp [ActiveDownload.run, ActiveDownload.step, hph, begin, hm, completeDownload]
        have hh := (hca ad hs [.begin] hst).2
        rw [content_eq_nil hs _ hle] at hh
        exact .inr hh
    · intro hco ad hs events hst
      rw [content_eq_nil hs events hle, received_eq_nil hs events hle]
      refine ⟨fun p hp => absurd hp not_mem_nil, ?_⟩
      rcases hco with ⟨hpo, -⟩ | ⟨-, hpa | hh⟩
      · omega
      · rw [startDownload_eq_none_iff.mpr hpa] at hs
        cases hs
      · exact hh

/-- A toy hash without collisions: the bytes as characters. -/
def toyHash (data : Bytes) : String := String.ofList (data.map fun byte => Char.ofNat byte.toNat)

/-- The default configuration over a transport. -/
def sampleEnv (delivery : Delivery) : Env :=
  { cfg := defaultTransferConfig, delivery, sha256Hex := toyHash }

/-- A request for two chunks with the contents `[1]` and `[2]`, or for no chunk at all. -/
def sampleRequest (totalChunks : Int) : Request :=
  { id := "download", datasetID := "d", hash := toyHash [1, 2], totalChunks, peers := ["p"] }

/-- One worker takes both chunks and gets forged ones, the other returns at once. -/
def forgedEvents : List Event :=
  .begin :: [0, 1].flatMap (forgeOne (sampleEnv .withData)) ++
    [.work 0 (.error ""), .work 1 (.error ""), .conclude 0]

/-- Two completed downloads of the wrong data: as the client is wired, one without chunks; over
a transport that delivers data, one whose chunks were made up by the peer. -/
theorem completed_with_wrong_data : (∃ ad, startDownload (sampleRequest 0) = some ad ∧
      (ad.run (sampleEnv .withoutData) [.begin]).download.status = .completed ∧
      toyHash (ad.run (sampleEnv .withoutData) [.begin]).content ≠ (sampleRequest 0).hash) ∧
    ∃ ad, startDownload (sampleRequest 2) = some ad ∧
      (ad.run (sampleEnv .withData) forgedEvents).download.status = .completed ∧
      (ad.run (sampleEnv .withData) forgedEvents).received.map (fun p => (p.1, p.2.index)) =
        [(0, 1), (1, 2)] ∧
      toyHash (ad.run (sampleEnv .withData) forgedEvents).content ≠ (sampleRequest 2).hash := by
  refine ⟨⟨_, rfl, ?_, ?_⟩, _, rfl, ?_, ?_, ?_⟩
  · decide +kernel
  · decide +kernel
  · decide +kernel
  · decide +kernel
  · decide +kernel

/-! ### Attempts -/

/-- The loop of `downloadChunk` over the attempts that are left; `serve` is what each peer answers in each of
them. Without an attempt the error is nil. -/
def downloadChunk (env : Env) (peers : List String) (chunkIndex : Int)
    (serve : Nat → String → Except String Chunk) :
    List Nat → Option TransferError → Except (Option TransferError) Chunk
  | [], lastErr => .error lastErr
  | retry :: retries, _ =>
    match attempt env peers chunkIndex (serve retry (selectPeer env.cfg peers chunkIndex)) with
    | .failed error => .error (some error)
    | .again error => downloadChunk env peers chunkIndex serve retries (some error)
    | .accepted chunk => .ok chunk

/-- The peer serves a chunk with its hash in every attempt. -/
def Serves (sha256Hex : Bytes → String) (serve : Nat → String → Except String Chunk) (peer : String) : Prop :=
  ∀ retry, ∃ chunk, serve retry peer = .ok chunk ∧ verifyChunk sha256Hex chunk = true

/-- The peer fails or serves wrong data in every attempt. -/
def Fails (sha256Hex : Bytes → String) (serve : Nat → String → Except String Chunk) (peer : String) : Prop :=
  ∀ retry chunk, serve retry peer = .ok chunk → verifyChunk sha256Hex chunk = false

theorem selectPeer_mem (cfg : TransferConfig) (hp : peers ≠ []) (chunkIndex : Nat) :
    selectPeer cfg peers chunkIndex ∈ peers := by
  have hlen : 0 < peers.length := length_pos_iff.mpr hp
  have hget : ∀ k, k < peers.length → peers.getD k "" ∈ peers := by
    intro k hk
    rw [getD_eq_getElem _ _ hk]
    exact getElem_mem hk
  have hmod : ((chunkIndex : Int).tmod peers.length).toNat < peers.length := by
    exact Nat.mod_lt _ hlen
  unfold selectPeer
  split
  · omega
  · split
    · exact hget _ hmod
    · exact hget 0 hlen

theorem exists_accepted_of_downloadChunk {serve : Nat → String → Except String Chunk} {retries : List Nat}
    {lastErr : Option TransferError} {chunk : Chunk}
    (h : downloadChunk env peers i serve retries lastErr = .ok chunk) :
    ∃ retry, attempt env peers i (serve retry (selectPeer env.cfg peers i)) = .accepted chunk := by
  induction retries generalizing lastErr with
  | nil => cases h
  | cons retry retries ih =>
    rw [downloadChunk] at h
    split at h
    · cases h
    · exact ih h
    next hc =>
      cases h
      exact ⟨retry, hc⟩

/-- **An available chunk is found exactly if data is delivered and the peer at its position serves it**: every
attempt asks the same peer. -/
theorem available_chunk_found_iff (env : Env) (peers : List String) (hp : peers ≠ []) (hid : "" ∉ peers)
    (chunkIndex : Nat) (serve : Nat → String → Except String Chunk)
    (hserve : ∀ peer ∈ peers, Serves env.sha256Hex serve peer ∨ Fails env.sha256Hex serve peer)
    (hr : peers.length ≤ env.cfg.maxRetries) :
    (∃ chunk, downloadChunk env peers chunkIndex serve (range env.cfg.maxRetries.toNat) none = .ok chunk) ↔
      env.delivery = .withData ∧ Serves env.sha256Hex serve (selectPeer env.cfg peers chunkIndex) := by
  have hmem := selectPeer_mem env.cfg hp chunkIndex
  have hlen := length_pos_iff.mpr hp
  constructor
  · rintro ⟨chunk, hc⟩
    obtain ⟨retry, ha⟩ := exists_accepted_of_downloadChunk hc
    obtain ⟨-, hverify, sent, hsent, rfl⟩ := attempt_eq_accepted ha
    cases hd : env.delivery with
    | withoutData => simp [hd, Delivery.decode, verifyChunk] at hverify
    | withData =>
      rw [hd] at hverify
      refine ⟨rfl, (hserve _ hmem).resolve_right fun hf => ?_⟩
      rw [Delivery.decode, hf retry sent hsent] at hverify
      cases hverify
  · rintro ⟨hd, hs⟩
    obtain ⟨chunk, hc, hverify⟩ := hs 0
    have hne : selectPeer env.cfg peers chunkIndex ≠ "" := fun h => hid (h ▸ hmem)
    obtain ⟨n, hn⟩ : ∃ n, env.cfg.maxRetries.toNat = n + 1 := ⟨env.cfg.maxRetries.toNat - 1, by omega⟩
    refine ⟨chunk, ?_⟩
    rw [hn, range_succ_eq_map, downloadChunk]
    simp [attempt, hne, hc, hd, Delivery.decode, hverify]

/-- Peer `a` serves a chunk, and nobody else does. -/
def onlyA (_ : Nat) (peer : String) : Except String Chunk :=
  if peer = "a" then .ok (forgedChunk toyHash 0) else .error "unavailable"

theorem onlyA_serves (peer : String) : Serves toyHash onlyA peer ∨ Fails toyHash onlyA peer := by
  by_cases h : peer = "a"
  · exact .inl fun _ => ⟨forgedChunk toyHash 0, if_pos h, by decide⟩
  · refine .inr fun _ chunk hc => ?_
    rw [onlyA, if_neg h] at hc
    cases hc

/-- The first chunk is asked of the first peer. -/
theorem available_chunk_found_first :
    ∃ chunk, downloadChunk (sampleEnv .withData) ["a", "b"] 0 onlyA (range 3) none = .ok chunk :=
  (available_chunk_found_iff (sampleEnv .withData) ["a", "b"] (by decide) (by decide) 0 onlyA
    (fun peer _ => onlyA_serves peer) (by decide)).mpr
      ⟨rfl, fun _ => ⟨forgedChunk toyHash 0, rfl, by decide⟩⟩

/-- The second chunk is asked of the second peer, three times. -/
theorem available_chunk_not_found :
    Serves toyHash onlyA "a" ∧
      downloadChunk (sampleEnv .withData) ["a", "b"] 1 onlyA (range 3) none =
        .error (some (.fetch "unavailable")) := by
  refine ⟨fun _ => ⟨forgedChunk toyHash 0, rfl, by decide⟩, by decide⟩

end Bib.P2p
