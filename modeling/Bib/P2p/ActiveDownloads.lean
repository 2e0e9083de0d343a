import Bib.Lib.Run
import Bib.P2p.Transfer

/-!
# Bib.P2p.ActiveDownloads

**The table of active downloads** (`TransferManager` in `p2p/transfer.go`). An entry of the table is a run of
`runDownload`, and runs are numbered as they start. A run with nothing to fetch returns and leaves its entry
behind; any other run deletes the entry under its download id at its end, whosever that is by then. Both are
harmless as long as the runs of a download come one after the other (`Orderly`, `table_accurate`).
-/

namespace Bib.P2p.ActiveDownloads

open Bib.Lib Bib.Lib.KeyMap List

structure DownloadRun where
  (id datasetHash : String)
  phase : Phase
  deriving DecidableEq

structure TransferManager where
  downloads : KeyMap String Nat
  runs : List DownloadRun
  /-- The entries that runs have deleted at their end, behind the run. -/
  removed : List (Nat × Nat)

inductive Event
  /-- `StartDownload`, with the id it draws. -/
  | start (id datasetHash : String)
  | resume (id datasetHash : String)
  | pause (id : String)
  | cancel (id : String)
  /-- A run begins, with or without missing chunks. -/
  | begin (run : Nat) (missing : Bool)
  /-- Its workers have returned. -/
  | finish (run : Nat)

def TransferManager.launch (tm : TransferManager) (id datasetHash : String) : TransferManager :=
  { tm with
    downloads := tm.downloads.set id tm.runs.length
    runs := tm.runs ++ [{ id, datasetHash, phase := .starting }] }

def TransferManager.setPhase (tm : TransferManager) (k : Nat) (run : DownloadRun) (phase : Phase) : TransferManager :=
  { tm with runs := tm.runs.set k { run with phase } }

def step (tm : TransferManager) : Event → TransferManager
  | .start id datasetHash =>
    if tm.downloads.rows.any fun p => tm.runs[p.2]?.any fun run => run.datasetHash = datasetHash then tm
    else tm.launch id datasetHash
  | .resume id datasetHash =>
    match tm.downloads.get? id with
    | some _ => tm
    | none => tm.launch id datasetHash
  -- the context of the run is cancelled, and the status set
  | .pause _ => tm
  | .cancel id => { tm with downloads := tm.downloads.delete id }
  | .begin k missing =>
    match tm.runs[k]? with
    | some ⟨id, datasetHash, .starting⟩ =>
      tm.setPhase k ⟨id, datasetHash, .starting⟩ (if missing then .working else .ended)
    | _ => tm
  | .finish k =>
    match tm.runs[k]? with
    | some ⟨id, datasetHash, .working⟩ =>
      { tm.setPhase k ⟨id, datasetHash, .working⟩ .ended with
        downloads := tm.downloads.delete id
        removed := tm.removed ++ ((tm.downloads.get? id).map fun entry => (k, entry)).toList }
    | _ => tm

/-- A run of the download has not ended. -/
def TransferManager.Live (tm : TransferManager) (id : String) : Prop :=
  ∃ run ∈ tm.runs, run.id = id ∧ run.phase ≠ .ended

/-- Each id in the table has a run that has not ended, and no run has deleted the entry of a later one. -/
structure Accurate (tm : TransferManager) : Prop where
  live : ∀ id entry, tm.downloads.get? id = some entry → tm.Live id
  own : ∀ p ∈ tm.removed, p.2 ≤ p.1

/-- The condition on the calls: a download is started or resumed only when its earlier runs have ended, and a
run that finds no missing chunks is one whose download was cancelled before. -/
def Orderly (tm : TransferManager) : Event → Prop
  | .start id _ => ¬ tm.Live id
  -- while the download is in the table, `ResumeDownload` refuses
  | .resume id _ => tm.downloads.get? id = none → ¬ tm.Live id
  | .begin k false => ∀ run, tm.runs[k]? = some run → run.phase = .starting → tm.downloads.get? run.id = none
  | _ => True

variable {tm : TransferManager}

/-- In an orderly run an entry is that of a run of its download that has not ended, which is the only one. -/
structure Inv (tm : TransferManager) : Prop where
  entry : ∀ id entry, tm.downloads.get? id = some entry →
    ∃ run, tm.runs[entry]? = some run ∧ run.id = id ∧ run.phase ≠ .ended
  single : ∀ (j k : Nat) run run', tm.runs[j]? = some run → tm.runs[k]? = some run' → run.id = run'.id →
    run.phase ≠ .ended → run'.phase ≠ .ended → j = k
  own : ∀ p ∈ tm.removed, p.2 ≤ p.1

theorem Inv.accurate (h : Inv tm) : Accurate tm where
  live id entry hg := by
    obtain ⟨run, hrun, hrest⟩ := h.entry id entry hg
    exact ⟨run, mem_of_getElem? hrun, hrest⟩
  own := h.own

theorem Inv.launch (h : Inv tm) {id : String} (datasetHash : String) (hid : ¬ tm.Live id) :
    Inv (tm.launch id datasetHash) := by
  -- a run with a live phase is an old one, or the new one, which has no namesake
  have hcases : ∀ {j : Nat} {run}, (tm.launch id datasetHash).runs[j]? = some run → run.phase ≠ .ended →
      (tm.runs[j]? = some run ∧ run.id ≠ id) ∨ (j = tm.runs.length ∧ run.id = id) := by
    intro j run hj hlive
    rw [TransferManager.launch, getElem?_append] at hj
    split at hj
    · exact .inl ⟨hj, fun heq => hid ⟨run, mem_of_getElem? hj, heq, hlive⟩⟩
    · obtain ⟨hz, rfl⟩ := List.getElem?_eq_some_iff.mp hj
      rw [length_singleton] at hz
      exact .inr ⟨by omega, by simp⟩
  refine ⟨fun id' entry hg => ?_, fun j k run run' hj hk heq hl hl' => ?_, h.own⟩
  · rcases get?_set_eq_some_iff.mp hg with ⟨rfl, rfl⟩ | ⟨-, hg⟩
    · exact ⟨_, getElem?_concat_length, rfl, by simp⟩
    · obtain ⟨run, hrun, hrest⟩ := h.entry id' entry hg
      exact ⟨run, (getElem?_append_left (List.getElem?_eq_some_iff.mp hrun).1).trans hrun, hrest⟩
  · rcases hcases hj hl with ⟨hj, hne⟩ | ⟨rfl, hid'⟩ <;> rcases hcases hk hl' with ⟨hk, hne'⟩ | ⟨rfl, hid''⟩
    · exact h.single j k run run' hj hk heq hl hl'
    · exact absurd (heq.trans hid'') hne
    · exact absurd (heq.symm.trans hid') hne'
    · rfl

/-- Another phase of one run: it goes on, or the table has no entry of its download any more. -/
theorem Inv.setPhase (h : Inv tm) {k : Nat} {run : DownloadRun} {phase : Phase} {downloads : KeyMap String Nat}
    {removed : List (Nat × Nat)} (hk : tm.runs[k]? = some run) (hlive : run.phase ≠ .ended)
    (hsub : ∀ id entry, downloads.get? id = some entry → tm.downloads.get? id = some entry)
    (hphase : phase = .ended → downloads.get? run.id = none) (hown : ∀ p ∈ removed, p.2 ≤ p.1) :
    Inv { tm.setPhase k run phase with downloads, removed } := by
  have hlt := (List.getElem?_eq_some_iff.mp hk).1
  have hcases : ∀ {j : Nat} {run'}, (tm.runs.set k { run with phase })[j]? = some run' → run'.phase ≠ .ended →
      ∃ old, tm.runs[j]? = some old ∧ old.id = run'.id ∧ old.phase ≠ .ended := by
    intro j run' hj hl
    by_cases hjk : k = j
    · subst hjk
      rw [getElem?_set_self hlt] at hj
      cases hj
      exact ⟨run, hk, rfl, hlive⟩
    · rw [getElem?_set_ne hjk] at hj
      exact ⟨run', hj, rfl, hl⟩
  refine ⟨fun id entry hg => ?_, fun i j a b hi hj heq hl hl' => ?_, hown⟩
  · obtain ⟨run', hrun', hid, hl⟩ := h.entry id entry (hsub id entry hg)
    by_cases hek : k = entry
    · subst hek
      rw [hk] at hrun'
      cases hrun'
      refine ⟨_, getElem?_set_self hlt, hid, fun hp => ?_⟩
      rw [← hid, hphase hp] at hg
      cases hg
    · exact ⟨run', (getElem?_set_ne hek).trans hrun', hid, hl⟩
  · obtain ⟨a', ha, haid, hal⟩ := hcases hi hl
    obtain ⟨b', hb, hbid, hbl⟩ := hcases hj hl'
    exact h.single i j a' b' ha hb (haid.trans (heq.trans hbid.symm)) hal hbl

theorem Inv.step (h : Inv tm) (event : Event) (hok : Orderly tm event) : Inv (ActiveDownloads.step tm event) := by
  cases event with
  | start id datasetHash =>
    rw [ActiveDownloads.step]
    split
    · exact h
    · exact h.launch datasetHash hok
  | resume id datasetHash =>
    rw [ActiveDownloads.step]
    split
    · exact h
    next hnone => exact h.launch datasetHash (hok hnone)
  | pause id => exact h
  | cancel id =>
    exact ⟨fun id' entry hg => h.entry id' entry (get?_delete_eq_some_iff.mp hg).2, h.single, h.own⟩
  | begin k missing =>
    rw [ActiveDownloads.step]
    split
    next id datasetHash hk =>
      refine h.setPhase hk (by simp) (fun _ _ hg => hg) (fun hp => ?_) h.own
      cases missing with
      | true => cases hp
      | false => exact hok _ hk rfl
    · exact h
  | finish k =>
    rw [ActiveDownloads.step]
    split
    next id datasetHash hk =>
      refine h.setPhase hk (by simp) (fun _ _ hg => (get?_delete_eq_some_iff.mp hg).2)
        (fun _ => by rw [get?_delete, if_pos rfl]) (forall_mem_append.mpr ⟨h.own, fun p hp => ?_⟩)
      obtain ⟨entry, hg, rfl⟩ : ∃ entry, tm.downloads.get? id = some entry ∧ p = (k, entry) := by
        simpa [eq_comm] using hp
      -- the entry is the run's own, which is the only one of the download
      obtain ⟨run, hrun, hid, hl⟩ := h.entry id entry hg
      exact Nat.le_of_eq (h.single entry k run _ hrun hk hid hl (by simp))
    · exact h

/-- **The table is accurate in every state of an orderly run.** -/
theorem table_accurate (events : List Event) (hok : Run.AllSteps step Orderly ⟨.empty, [], []⟩ events)
    (n : Nat) : Accurate ((events.take n).foldl step ⟨.empty, [], []⟩) := by
  have hinv : Inv ((events.take n).foldl step ⟨.empty, [], []⟩) := by
    refine Run.invariant_of_allSteps Inv (fun _ event h hok => h.step event hok) ⟨?_, ?_, ?_⟩ hok n
    · intro id entry hg
      cases hg
    · intro j k run run' hj
      cases hj
    · intro p hp
      cases hp
  exact hinv.accurate

/-- A download is cancelled, its run ends, it is resumed, and this run ends too. -/
def resumedEvents : List Event :=
  [.start "d" "h", .begin 0 true, .cancel "d", .finish 0, .resume "d" "h", .begin 1 true, .finish 1]

theorem table_accurate_resumed :
    (resumedEvents.foldl step ⟨.empty, [], []⟩).removed = [(1, 1)] ∧
      Accurate ((resumedEvents.take 7).foldl step ⟨.empty, [], []⟩) := by
  refine ⟨by decide, table_accurate resumedEvents ?_ 7⟩
  simp only [resumedEvents, Run.AllSteps, Orderly, TransferManager.Live]
  decide

/-- A download is cancelled and resumed, and then its first run ends. -/
theorem later_entry_removed :
    let tm := [Event.start "d" "h", .begin 0 true, .cancel "d", .resume "d" "h", .finish 0].foldl step
      ⟨.empty, [], []⟩
    tm.downloads.get? "d" = none ∧ tm.runs[1]? = some ⟨"d", "h", .starting⟩ ∧ ¬ Accurate tm := by
  refine ⟨by decide, by decide, fun h => ?_⟩
  exact absurd (h.own (0, 1) (by decide)) (by decide)

end Bib.P2p.ActiveDownloads
