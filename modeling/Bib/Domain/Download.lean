import Bib.Domain.Chunk
import Bib.Lib.Bitmap

/-!
# Bib.Domain.Download

The record of a dataset download (`internal/domain/sync.go`) and its **chunk bookkeeping**: a
bitmap of the chunks received so far, and their number. The fields no modelled function
reads (`PeerID`, the times) are left out.
-/

namespace Bib.Domain

open Bib.Lib

inductive DownloadStatus
  | active
  | paused
  | completed
  | failed
  deriving DecidableEq

structure Download where
  (id datasetID : String)
  /-- The expected content hash. -/
  datasetHash : String
  (totalChunks completedChunks : Int)
  chunkBitmap : Bytes
  status : DownloadStatus
  error : String

namespace Download

def isChunkCompleted (d : Download) (index : Int) : Bool :=
  if index < 0 then false else Bitmap.test d.chunkBitmap index.toNat

/-- `countCompletedChunks`: the bits set, capped at the total. -/
def countCompletedChunks (d : Download) : Int :=
  let count : Int := Bitmap.count d.chunkBitmap
  if count > d.totalChunks then d.totalChunks else count

def setChunkCompleted (d : Download) (index : Int) : Download :=
  if index < 0 then d
  else
    let d := { d with chunkBitmap := Bitmap.set d.chunkBitmap index.toNat }
    { d with completedChunks := d.countCompletedChunks }

def isComplete (d : Download) : Bool := d.completedChunks ≥ d.totalChunks && d.totalChunks > 0

def missingChunks (d : Download) : List Int :=
  ((List.range d.totalChunks.toNat).map fun (i : Nat) => (i : Int)).filter fun i => !d.isChunkCompleted i

/-! ### Bookkeeping -/

variable {d : Download}

theorem mem_missingChunks {i : Int} :
    i ∈ d.missingChunks ↔ 0 ≤ i ∧ i < d.totalChunks ∧ d.isChunkCompleted i = false := by
  simp only [missingChunks, List.mem_filter, List.mem_map, List.mem_range, Bool.not_eq_true']
  constructor
  · intro h
    obtain ⟨⟨k, hk, hki⟩, hm⟩ := h
    exact ⟨by omega, by omega, hm⟩
  · intro h
    obtain ⟨hn, hlt, hm⟩ := h
    exact ⟨⟨i.toNat, by omega, by omega⟩, hm⟩

theorem isChunkCompleted_natCast (d : Download) (i : Nat) : d.isChunkCompleted i = Bitmap.test d.chunkBitmap i := by
  simp [isChunkCompleted]

theorem isChunkCompleted_set (d : Download) {i j : Int} (hi : 0 ≤ i) :
    (d.setChunkCompleted i).isChunkCompleted j = (d.isChunkCompleted j || decide (i = j)) := by
  unfold isChunkCompleted setChunkCompleted
  rw [if_neg (Int.not_lt.mpr hi)]
  by_cases hj : j < 0
  · have hne : i ≠ j := by omega
    simp [hj, hne]
  · have hif : i.toNat = j.toNat ↔ i = j := by omega
    simp [hj, Bitmap.test_set, hif]

@[simp] theorem setChunkCompleted_total (d : Download) (i : Int) :
    (d.setChunkCompleted i).totalChunks = d.totalChunks := by
  unfold setChunkCompleted
  split <;> rfl

@[simp] theorem setChunkCompleted_status (d : Download) (i : Int) : (d.setChunkCompleted i).status = d.status := by
  unfold setChunkCompleted
  split <;> rfl

theorem completedChunks_set_le (d : Download) (h : d.completedChunks ≤ Bitmap.count d.chunkBitmap) (i : Int) :
    (d.setChunkCompleted i).completedChunks ≤ Bitmap.count (d.setChunkCompleted i).chunkBitmap := by
  unfold setChunkCompleted
  split
  · exact h
  · simp only [countCompletedChunks]
    split <;> omega

/-- The count on record is that of the bits, and no bit is beyond the total. -/
structure Booked (d : Download) : Prop where
  count : d.completedChunks = Bitmap.count d.chunkBitmap
  bound : ∀ i, Bitmap.test d.chunkBitmap i = true → i < d.totalChunks.toNat

theorem Booked.of_fresh (hz : d.completedChunks = 0) (hnew : ∀ i, d.isChunkCompleted i = false) : Booked d := by
  have hb : ∀ n i, Bitmap.test d.chunkBitmap i = true → i < n := by
    intro n i hi
    rw [← isChunkCompleted_natCast, hnew] at hi
    cases hi
  have hc := Bitmap.count_le_of_bound (hb 0)
  exact ⟨by omega, hb _⟩

theorem Booked.set (h : Booked d) {i : Int} (hi : 0 ≤ i) (hlt : i < d.totalChunks) :
    Booked (d.setChunkCompleted i) := by
  have hb : ∀ j, Bitmap.test (Bitmap.set d.chunkBitmap i.toNat) j = true → j < d.totalChunks.toNat := by
    intro j hj
    rw [Bitmap.test_set, Bool.or_eq_true, decide_eq_true_eq] at hj
    rcases hj with hj | hj
    · exact h.bound j hj
    · omega
  have hc := Bitmap.count_le_of_bound hb
  unfold setChunkCompleted
  rw [if_neg (Int.not_lt.mpr hi)]
  refine ⟨?_, hb⟩
  simp only [countCompletedChunks]
  exact if_neg (by omega)

theorem Booked.isComplete_iff (h : Booked d) (ht : 0 < d.totalChunks) :
    d.isComplete = true ↔ d.missingChunks = [] := by
  have hm : d.missingChunks = [] ↔ ∀ i < d.totalChunks.toNat, Bitmap.test d.chunkBitmap i = true := by
    simp [missingChunks, isChunkCompleted_natCast]
  rw [hm, ← Bitmap.le_count_iff h.bound]
  simp [isComplete, h.count, ht]

theorem completed_of_isComplete (h : d.isComplete = true) (hc : d.completedChunks ≤ Bitmap.count d.chunkBitmap)
    (hb : ∀ i : Nat, Bitmap.test d.chunkBitmap i = true → (i : Int) < d.totalChunks)
    {i : Int} (hi : 0 ≤ i) (hlt : i < d.totalChunks) : d.isChunkCompleted i = true := by
  simp only [isComplete, ge_iff_le, gt_iff_lt, Bool.and_eq_true, decide_eq_true_eq] at h
  have hb' : ∀ j, Bitmap.test d.chunkBitmap j = true → j < d.totalChunks.toNat := by
    intro j hj
    have hlt := hb j hj
    omega
  have hall := (Bitmap.le_count_iff hb').mp (by omega) i.toNat (by omega)
  simp [isChunkCompleted, hall, Int.not_lt.mpr hi]

end Download

end Bib.Domain
