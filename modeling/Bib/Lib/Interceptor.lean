import Mathlib.Data.List.Basic

/-!
# Bib.Lib.Interceptor

**Chains of interceptors.** An interceptor is code around a handler: it sees a call on its way in,
where it may refuse it or change its context, and it sees the outcome on its way out. A chain runs
the ways in from the first to the last interceptor, then the handler, then the ways out in reverse.

`reach` follows a call on its way in. It says whether the handler is called, and with what.
-/

namespace Bib.Lib

open List

variable {C S R : Type}

/-- Code around a handler, for contexts `C`, a state `S` and outcomes `R`. -/
structure Interceptor (C S R : Type) where
  /-- The way in: an outcome of its own, or the context to go on with. -/
  before : C → S → Except R C × S
  /-- The way out, with the context that was passed on. -/
  after : C → R → S → R × S

abbrev Handler (C S R : Type) := C → S → R × S

namespace Interceptor

def wrap (i : Interceptor C S R) (h : Handler C S R) : Handler C S R := fun c s =>
  match i.before c s with
  | (.error r, s') => (r, s')
  | (.ok c', s') => i.after c' (h c' s').1 (h c' s').2

/-- Interceptors around a handler, the first one outermost. -/
def chain (is : List (Interceptor C S R)) (h : Handler C S R) : Handler C S R :=
  is.foldr wrap h

/-- The context and state the handler is called with, if the call gets through. -/
def reach : List (Interceptor C S R) → C → S → Option (C × S)
  | [], c, s => some (c, s)
  | i :: is, c, s =>
    match i.before c s with
    | (.error _, _) => none
    | (.ok c', s') => reach is c' s'

/-- A chain calls its handler exactly if `reach` gives what to call it with, and the ways out see what it
returns. Otherwise its outcome is the same for every handler. -/
theorem chain_eq (is : List (Interceptor C S R)) (c : C) (s : S) :
    (∃ p, reach is c s = some p ∧ ∃ out : R × S → R × S, ∀ h, chain is h c s = out (h p.1 p.2)) ∨
      reach is c s = none ∧ ∃ outcome, ∀ h, chain is h c s = outcome := by
  induction is generalizing c s with
  | nil => exact .inl ⟨_, rfl, id, fun _ => rfl⟩
  | cons i is ih =>
    simp only [chain, foldr_cons, wrap, reach]
    obtain ⟨_ | c', s'⟩ := i.before c s
    · exact .inr ⟨rfl, _, fun _ => rfl⟩
    · rcases ih c' s' with ⟨p, hp, out, ho⟩ | ⟨hn, outcome, ho⟩
      · refine .inl ⟨p, hp, fun r => i.after c' (out r).1 (out r).2, fun h => ?_⟩
        exact congrArg (fun r => i.after c' r.1 r.2) (ho h)
      · exact .inr ⟨hn, _, fun h => congrArg (fun r => i.after c' r.1 r.2) (ho h)⟩

end Interceptor

end Bib.Lib
