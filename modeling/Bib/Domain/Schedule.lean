import Bib.Domain.Chunk
import Bib.Lib.Run

/-!
# Bib.Domain.Schedule

**When a scheduled job runs** (`internal/domain/schedule.go`). A runner calls `IncrementRun` at times when
`ShouldRun` has said yes (`schedule_never_overruns`).
-/

namespace Bib.Domain

open Bib.Lib List

/-- The types that `Validate` lets through. -/
inductive ScheduleType
  | scheduleOnce
  | scheduleCron
  | scheduleRepeat
  | scheduleInterval
  deriving DecidableEq

structure Schedule where
  type : ScheduleType
  /-- 0 means infinite. -/
  repeatCount : Int
  interval : Int
  (startAt endAt : Option Time)
  runCount : Int
  (nextRunAt lastRunAt : Option Time)
  enabled : Bool

namespace Schedule

def isExpired (s : Schedule) (now : Time) : Bool :=
  (∃ stop ∈ s.endAt, stop < now) ∨ (s.type = .scheduleRepeat ∧ 0 < s.repeatCount ∧ s.repeatCount ≤ s.runCount) ∨
    (s.type = .scheduleOnce ∧ 0 < s.runCount)

def shouldRun (s : Schedule) (now : Time) : Bool :=
  s.enabled ∧ ¬ s.isExpired now ∧ (¬ ∃ start ∈ s.startAt, now < start) ∧ ¬ ∃ next ∈ s.nextRunAt, now < next

def incrementRun (s : Schedule) (now : Time) : Schedule :=
  let s := { s with runCount := s.runCount + 1, lastRunAt := some now }
  match s.type with
  | .scheduleOnce => { s with nextRunAt := none, enabled := false }
  | .scheduleRepeat =>
    if 0 < s.repeatCount ∧ s.repeatCount ≤ s.runCount then { s with nextRunAt := none, enabled := false } else s
  | .scheduleInterval => { s with nextRunAt := some (now + s.interval) }
  | .scheduleCron => s

/-- The number of runs a schedule allows. -/
def limit (s : Schedule) : Option Int :=
  match s.type with
  | .scheduleOnce => some 1
  | .scheduleRepeat => if 0 < s.repeatCount then some s.repeatCount else none
  | _ => none

variable {s : Schedule} {now : Time} {times : List Time}

theorem shouldRun_spec (h : s.shouldRun now = true) : (∀ n ∈ s.limit, s.runCount < n) ∧
    (∀ next ∈ s.nextRunAt, next ≤ now) ∧ (∀ start ∈ s.startAt, start ≤ now) ∧ ∀ stop ∈ s.endAt, now ≤ stop := by
  simp only [shouldRun, isExpired, decide_eq_true_eq, not_or, not_exists, not_and, Int.not_lt] at h
  refine ⟨fun n hn => ?_, h.2.2.2, h.2.2.1, h.2.1.1⟩
  cases ht : s.type <;> grind [limit]

theorem incrementRun_spec (s : Schedule) (now : Time) : let s' := s.incrementRun now
    s'.limit = s.limit ∧ s'.runCount = s.runCount + 1 ∧ s'.type = s.type ∧ s'.interval = s.interval ∧
      s'.startAt = s.startAt ∧ s'.endAt = s.endAt ∧
      (s.type = .scheduleInterval → s'.nextRunAt = some (now + s.interval)) := by
  cases ht : s.type <;> grind [incrementRun, limit]

/-- The times of the runs from any state on, for a runner that asks before each of them. -/
theorem runs_spec (hruns : Run.AllSteps incrementRun (fun s now => s.shouldRun now = true) s times) :
    (∀ n ∈ s.limit, s.runCount ≤ n → s.runCount + times.length ≤ n) ∧
      (s.type = .scheduleInterval → times.IsChain fun t t' => t + s.interval ≤ t') ∧
      ∀ t ∈ times, (∀ start ∈ s.startAt, start ≤ t) ∧ ∀ stop ∈ s.endAt, t ≤ stop := by
  induction times generalizing s with
  | nil => simp
  | cons now times ih =>
    obtain ⟨hlt, -, hwindow⟩ := shouldRun_spec hruns.1
    obtain ⟨hlimit, hcount, htype, hinterval, hstart, hend, hnext⟩ := incrementRun_spec s now
    obtain ⟨hruns', hapart, hin⟩ := ih hruns.2
    rw [hlimit, hcount] at hruns'
    rw [htype, hinterval] at hapart
    rw [hstart, hend] at hin
    refine ⟨fun n hn _ => ?_, fun hs => ?_, forall_mem_cons.mpr ⟨hwindow, hin⟩⟩
    · have := hruns' n hn (hlt n hn)
      rw [length_cons]
      omega
    · cases times with
      | nil => simp
      | cons t times =>
        exact isChain_cons_cons.mpr ⟨(shouldRun_spec hruns.2.1).2.1 _ (hnext hs), hapart hs⟩

/-- **A schedule never runs too often, too soon or outside its bounds**, whatever its runner does in between. -/
theorem schedule_never_overruns (s : Schedule) (times : List Time) (h0 : s.runCount = 0)
    (hruns : Run.AllSteps incrementRun (fun s now => s.shouldRun now = true) s times) :
    (s.type = .scheduleOnce → times.length ≤ 1) ∧
      (s.type = .scheduleRepeat → 0 < s.repeatCount → times.length ≤ s.repeatCount) ∧
      (s.type = .scheduleInterval → times.IsChain fun t t' => t + s.interval ≤ t') ∧
      ∀ t ∈ times, (∀ start ∈ s.startAt, start ≤ t) ∧ ∀ stop ∈ s.endAt, t ≤ stop := by
  obtain ⟨hlimit, hspec⟩ := runs_spec hruns
  refine ⟨fun hs => ?_, fun hs hn => ?_, hspec⟩
  · have := hlimit 1 (by simp [limit, hs])
    omega
  · have := hlimit s.repeatCount (by simp [limit, hs, hn])
    omega

theorem schedule_never_overruns_hourly :
    let s : Schedule := ⟨.scheduleInterval, 0, 60, some 5, none, 0, none, none, true⟩
    Run.AllSteps incrementRun (fun s now => s.shouldRun now = true) s [7, 70] ∧
      [7, 70].IsChain fun t t' : Time => t + s.interval ≤ t' :=
  have hruns := by decide
  ⟨hruns, (schedule_never_overruns _ _ rfl hruns).2.2.1 rfl⟩

end Schedule

end Bib.Domain
