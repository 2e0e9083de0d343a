import Bib.Lib.Run

/-!
# Bib.Audit.BatchLogger

**Audit entries in batches** (`BatchLogger` in `storage/audit/middleware.go`). `Log` puts an entry into a
channel, and the process loop moves entries from it into a batch, which it passes to `LogEntry` when it is
full, at a tick of the clock and when it is told to stop. Its `select` takes any case that is ready, so it
can stop with entries in the channel.
-/

namespace Bib.Audit.Batch

open Bib.Lib List

variable {Entry : Type}

structure BatchLogger (Entry : Type) where
  /-- The channel, and how many entries it takes. -/
  entries : List Entry
  bufferSize : Nat
  batch : List Entry
  batchSize : Nat
  /-- What was put into the channel so far, and what of it when `Stop` was called. -/
  accepted : List Entry
  stopped : Option (List Entry)
  ended : Bool
  logged : List Entry

def newBatchLogger (batchSize bufferSize : Int) : BatchLogger Entry :=
  { entries := [], bufferSize := if bufferSize ≤ 0 then 1000 else bufferSize.toNat, batch := []
    batchSize := if batchSize ≤ 0 then 100 else batchSize.toNat
    accepted := [], stopped := none, ended := false, logged := [] }

inductive Event (Entry : Type)
  /-- `Log`, with the entry it makes. -/
  | log (entry : Entry)
  | stop
  /-- The cases of the `select` in `processLoop`. -/
  | receive
  | tick
  | done

def BatchLogger.flushBatch (bl : BatchLogger Entry) : BatchLogger Entry :=
  { bl with logged := bl.logged ++ bl.batch, batch := [] }

/-- A case of the `select` that is not ready is not taken. -/
def step (bl : BatchLogger Entry) : Event Entry → BatchLogger Entry
  | .log entry =>
    if bl.entries.length < bl.bufferSize then
      { bl with entries := bl.entries ++ [entry], accepted := bl.accepted ++ [entry] }
    else bl
  | .stop => { bl with stopped := bl.stopped.or (some bl.accepted) }
  | .receive =>
    match bl.ended, bl.entries with
    | false, entry :: entries =>
      let bl := { bl with entries, batch := bl.batch ++ [entry] }
      if bl.batchSize ≤ bl.batch.length then bl.flushBatch else bl
    | _, _ => bl
  | .tick => if bl.ended then bl else bl.flushBatch
  | .done => if bl.stopped.isSome && !bl.ended then { bl.flushBatch with ended := true } else bl

/-- When the loop has ended, the entries accepted before `Stop` have been logged, each once and in order. -/
def Flushed (bl : BatchLogger Entry) : Prop :=
  bl.ended = true → ∀ before ∈ bl.stopped, before <+: bl.logged ∧ bl.logged <+: bl.accepted

/-- When the loop takes the case `done`, the channel holds only entries accepted after `Stop`. -/
def Drained (bl : BatchLogger Entry) : Event Entry → Prop
  | .done => bl.ended = false → ∀ before ∈ bl.stopped, bl.entries.length + before.length ≤ bl.accepted.length
  | _ => True

structure Inv (bl : BatchLogger Entry) : Prop where
  accepted : bl.accepted = bl.logged ++ bl.batch ++ bl.entries
  stopped : ∀ before ∈ bl.stopped, before <+: bl.accepted
  ended : bl.ended = true → bl.stopped.isSome = true

variable {bl : BatchLogger Entry}

theorem Inv.flushBatch (h : Inv bl) : Inv bl.flushBatch :=
  ⟨by simp [BatchLogger.flushBatch, h.accepted], h.stopped, h.ended⟩

theorem inv_step (h : Inv bl) (event : Event Entry) : Inv (step bl event) := by
  cases event with
  | log entry =>
    rw [step]
    split
    · refine ⟨?_, fun before hb => (h.stopped before hb).trans (prefix_append _ _), h.ended⟩
      rw [h.accepted, append_assoc]
    · exact h
  | stop =>
    refine ⟨h.accepted, ?_, fun _ => by cases hs : bl.stopped <;> simp [step, hs]⟩
    intro before hb
    rcases Option.or_eq_some_iff.mp hb with hb | ⟨-, hb⟩
    · exact h.stopped before hb
    · cases hb; exact prefix_rfl
  | receive =>
    rw [step]
    split
    next entry entries hf he =>
      have hm : Inv { bl with entries, batch := bl.batch ++ [entry] } :=
        ⟨by simp [h.accepted, he], h.stopped, h.ended⟩
      dsimp only
      split
      · exact hm.flushBatch
      · exact hm
    · exact h
  | tick =>
    rw [step]
    split
    · exact h
    · exact h.flushBatch
  | done =>
    rw [step]
    split
    next hs => exact ⟨h.flushBatch.accepted, h.stopped, fun _ => (Bool.and_eq_true_iff.mp hs).1⟩
    · exact h

theorem flushed_step_iff (h : Inv bl) (hf : Flushed bl) (event : Event Entry) :
    Flushed (step bl event) ↔ Drained bl event := by
  cases event with
  | log entry =>
    refine iff_of_true ?_ trivial
    rw [step]
    split
    · exact fun he before hb => ⟨(hf he before hb).1, (hf he before hb).2.trans (prefix_append _ _)⟩
    · exact hf
  | stop =>
    refine iff_of_true (fun he before hb => hf he before ?_) trivial
    obtain ⟨first, hs⟩ := Option.isSome_iff_exists.mp (h.ended he)
    simpa [step, hs] using hb
  | receive =>
    refine iff_of_true ?_ trivial
    rw [step]
    split
    next entry entries hl he =>
      dsimp only
      split <;> exact fun he' => absurd (hl.symm.trans he') (by decide)
    · exact hf
  | tick =>
    refine iff_of_true ?_ trivial
    rw [step]
    split
    · exact hf
    next hl => exact fun he => absurd he hl
  | done =>
    rw [step]
    split
    next hs =>
      obtain ⟨hs, hl⟩ := Bool.and_eq_true_iff.mp hs
      have hp : bl.logged ++ bl.batch <+: bl.accepted := ⟨bl.entries, h.accepted.symm⟩
      have hlen := congrArg length h.accepted
      rw [length_append] at hlen
      refine ⟨fun hall _ before hb => ?_, fun hall _ before hb => ⟨?_, hp⟩⟩
      · have hle := (hall rfl before hb).1.length_le
        simp only [BatchLogger.flushBatch] at hle
        omega
      · have hle := hall (by simpa using hl) before hb
        exact prefix_of_prefix_length_le (h.stopped before hb) hp
          (show before.length ≤ (bl.logged ++ bl.batch).length by omega)
    next hs =>
      refine iff_of_true hf fun hl before hb => ?_
      simp [hl, Option.mem_def.mp hb] at hs

/-- **Entries are flushed at shutdown in a run exactly if the loop does not take the stop signal while the
channel holds entries accepted before `Stop`.** -/
theorem flushed_at_stop_iff (batchSize bufferSize : Int) (events : List (Event Entry)) :
    (∀ done, done <+: events → Flushed (done.foldl step (newBatchLogger batchSize bufferSize))) ↔
      Run.AllSteps step Drained (newBatchLogger batchSize bufferSize) events :=
  Run.forall_prefix_iff_allSteps Inv Flushed (fun _ event h => inv_step h event)
    (fun _ event h hf => flushed_step_iff h hf event) ⟨rfl, fun _ hb => (by cases hb), fun he => (by cases he)⟩
    (fun he => by cases he)

/-- **Entries are logged in the order they were accepted in**, and the others wait in the batch and the channel. -/
theorem accepted_eq_logged_append (batchSize bufferSize : Int) (events : List (Event Entry)) :
    let bl := events.foldl step (newBatchLogger batchSize bufferSize)
    bl.accepted = bl.logged ++ bl.batch ++ bl.entries :=
  (foldlRecOn (motive := Inv) events step ⟨rfl, fun _ hb => (by cases hb), fun he => by cases he⟩
    fun _ h event _ => inv_step h event).accepted

theorem queued_entry_lost :
    let bl := [Event.log 1, .stop, .done].foldl step (newBatchLogger 100 1000)
    bl.stopped = some [1] ∧ bl.ended = true ∧ bl.logged = [] ∧ ¬ Flushed bl := by
  refine ⟨rfl, rfl, rfl, fun h => ?_⟩
  exact absurd (h rfl [1] rfl).1 (by decide)

end Bib.Audit.Batch
