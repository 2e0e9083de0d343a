import Mathlib.Data.List.Induction

/-!
# Bib.Lib.Edit

**A cell that is written and amended.** An edit replaces what the cell holds, with a value or with nothing, or
it changes a value that is there; what a later amendment sets is not what an earlier one has left.

A list of edits comes down to its last writing and the last amendment behind it (`exists_foldl_run`), so
running the list once more changes nothing (`foldl_run_twice`).
-/

namespace Bib.Lib

variable {V A : Type}

inductive Edit (V A : Type)
  | keep
  | write (value : Option V)
  | amend (a : A)

namespace Edit

def run (f : A → V → V) : Option V → Edit V A → Option V
  | cell, keep => cell
  | _, write value => value
  | cell, amend a => cell.map (f a)

variable {f : A → V → V}

theorem exists_foldl_run (hf : ∀ a b v, f a (f b v) = f a v) (edits : List (Edit V A)) :
    ∃ (written : Option (Option V)) (amended : Option A), ∀ cell,
      edits.foldl (run f) cell = (written.getD cell).map fun v => amended.elim v (f · v) := by
  induction edits using List.reverseRecOn with
  | nil => exact ⟨none, none, fun cell => by simp⟩
  | append_singleton edits edit ih =>
    obtain ⟨written, amended, h⟩ := ih
    simp only [List.foldl_append, List.foldl_cons, List.foldl_nil, h]
    cases edit with
    | keep => exact ⟨written, amended, fun cell => rfl⟩
    | write value => exact ⟨some value, none, fun cell => by simp [run]⟩
    | amend a =>
      refine ⟨written, some a, fun cell => ?_⟩
      rw [run, Option.map_map]
      congr 1
      funext v
      cases amended with
      | none => rfl
      | some b => exact hf a b v

theorem foldl_run_twice (hf : ∀ a b v, f a (f b v) = f a v) (edits : List (Edit V A)) (cell : Option V) :
    edits.foldl (run f) (edits.foldl (run f) cell) = edits.foldl (run f) cell := by
  obtain ⟨written, amended, h⟩ := exists_foldl_run hf edits
  rw [h, h]
  cases written with
  | some value => rfl
  | none =>
    rw [Option.getD_none, Option.map_map]
    congr 1
    funext v
    cases amended with
    | none => rfl
    | some a => exact hf a a v

end Edit

end Bib.Lib
