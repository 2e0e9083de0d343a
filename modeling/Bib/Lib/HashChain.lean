import Mathlib.Data.List.Induction

/-!
# Bib.Lib.HashChain

**Hash chains over arbitrary records.** `prev` and `hash` read the two hashes of a record. A
list of records is linked to `start` if each record's `prev` is the `hash` of the record before
it, and the first one's is `start`. `verify` is the usual loop: compare, recompute, go on.
-/

namespace Bib.Lib.HashChain

variable {α β : Type} (prev hash : α → β)

/-- Each record names the hash of the record before it, the first one `start`. -/
def Linked (start : β) : List α → Prop
  | [] => True
  | row :: rows => prev row = start ∧ Linked (hash row) rows

/-- The hash the next record has to name. -/
def tip (start : β) : List α → β
  | [] => start
  | row :: rows => tip (hash row) rows

/-- The verifying loop; `ok` recomputes the hash of a record. -/
def verify [DecidableEq β] (ok : α → Bool) (start : β) : List α → Bool
  | [] => true
  | row :: rows =>
    if prev row ≠ start then false
    else if !ok row then false
    else verify ok (hash row) rows

theorem verify_eq_true_iff [DecidableEq β] (ok : α → Bool) (start : β) (rows : List α) :
    verify prev hash ok start rows = true ↔
      Linked prev hash start rows ∧ ∀ row ∈ rows, ok row = true := by
  induction rows generalizing start with
  | nil => simp [verify, Linked]
  | cons row rows ih =>
    unfold verify
    by_cases hp : prev row = start
    · cases hok : ok row with
      | false => simp [hp, hok]
      | true => simp [hp, hok, ih, Linked]
    · simp [hp, Linked]

theorem linked_append (start : β) (rows rows' : List α) : Linked prev hash start (rows ++ rows') ↔
      Linked prev hash start rows ∧ Linked prev hash (tip hash start rows) rows' := by
  induction rows generalizing start with
  | nil => simp [Linked, tip]
  | cons row rows ih => simp [Linked, tip, ih, and_assoc]

theorem linked_concat (start : β) (rows : List α) (row : α) :
    Linked prev hash start (rows ++ [row]) ↔
      Linked prev hash start rows ∧ prev row = tip hash start rows := by
  simp [linked_append, Linked]

theorem tip_concat (start : β) (rows : List α) (row : α) : tip hash start (rows ++ [row]) = hash row := by
  induction rows generalizing start with
  | nil => rfl
  | cons first rows ih => exact ih (hash first)

end Bib.Lib.HashChain
