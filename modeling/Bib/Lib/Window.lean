import Mathlib.Algebra.Order.Group.Int
import Mathlib.Algebra.Order.Group.Unbundled.Basic

/-!
# Bib.Lib.Window

**Times in a sliding window.** Times are added one after the other. No half-open interval of
length `w` has more than a bound of them if, whenever one is added, the last `w` has no
more (`Bounded.append`).

A record need not hold all times: it is enough that it agrees with them on what is later than
a cutoff (`Recorded`), and the cutoff only moves forward.
-/

namespace Bib.Lib.Window

open List

variable {T : Type} [LinearOrder T] {cutoff cutoff' : T} {bound : Int} {times record : List T}

/-! ### Records -/

/-- The record agrees with the times on what is later than the cutoff. -/
def Recorded (cutoff : T) (times record : List T) : Prop :=
  ∀ x, cutoff ≤ x → (times.countP fun y => x < y) = record.countP fun y => x < y

theorem Recorded.append (h : Recorded cutoff times record) (now : T) :
    Recorded cutoff (times ++ [now]) (record ++ [now]) := by
  intro x hx
  rw [countP_append, countP_append, h x hx]

theorem Recorded.prune (h : Recorded cutoff times record) :
    Recorded cutoff times (record.filter fun y => cutoff < y) := by
  intro x hx
  rw [h x hx, countP_filter]
  refine countP_congr fun y _ => ?_
  simp only [Bool.and_eq_true, decide_eq_true_eq]
  exact ⟨fun hy => ⟨hy, hx.trans_lt hy⟩, fun hy => hy.1⟩

theorem Recorded.forget (h : Recorded cutoff times record) (hold : ∀ y ∈ record, ¬cutoff < y) :
    Recorded cutoff times [] := by
  have hnone : (record.filter fun y => cutoff < y) = [] :=
    filter_eq_nil_iff.mpr fun y hy => by simpa using hold y hy
  rw [← hnone]
  exact h.prune

/-! ### Bounds -/

/-- How many of the times meet a condition, if each that does is later than a cutoff. -/
theorem countP_le_of_later {p : T → Bool} (hp : ∀ x, p x = true → cutoff < x)
    (h : (times.countP (fun x => cutoff < x) : Int) ≤ bound) : (times.countP p : Int) ≤ bound := by
  have hle : times.countP p ≤ times.countP fun x => cutoff < x :=
    countP_mono_left fun x _ hx => by simpa using hp x hx
  omega

variable [AddCommGroup T] {w now : T}

/-- No half-open interval of length `w` has more than `bound` of the times. -/
def Bounded (w : T) (bound : Int) (times : List T) : Prop :=
  ∀ t, (times.countP fun x => t ≤ x ∧ x < t + w : Int) ≤ bound ∧
    (times.countP fun x => t < x ∧ x ≤ t + w : Int) ≤ bound

theorem Bounded.append [IsOrderedAddMonoid T] (h : Bounded w bound times)
    (hn : ((times ++ [now]).countP (fun x => now - w < x) : Int) ≤ bound) :
    Bounded w bound (times ++ [now]) := by
  intro t
  refine ⟨?_, ?_⟩
  · by_cases hin : t ≤ now ∧ now < t + w
    · refine countP_le_of_later (fun x hx => ?_) hn
      have hx' : t ≤ x := (of_decide_eq_true hx).1
      exact (sub_lt_iff_lt_add.mpr hin.2).trans_le hx'
    · rw [countP_append, countP_singleton, if_neg (by simpa using hin)]
      exact (h t).1
  · by_cases hin : t < now ∧ now ≤ t + w
    · refine countP_le_of_later (fun x hx => ?_) hn
      have hx' : t < x := (of_decide_eq_true hx).1
      exact (sub_le_iff_le_add.mpr hin.2).trans_lt hx'
    · rw [countP_append, countP_singleton, if_neg (by simpa using hin)]
      exact (h t).2

end Bib.Lib.Window
