import Mathlib.Data.List.Basic

/-!
# Bib.Lib.Calls

**Calls that run at the same time.** A call is cut at its operations on a shared state: it is a value of a type
`C`, which holds what it has read so far and where it stands, and one step of it is one operation. A list of
events is an interleaving of any number of calls. A fact about runs looks at one step of one call (`next_rule`,
`forall_calls_next`).
-/

namespace Bib.Lib.Calls

open List

variable {S R C I : Type}

/-- How a call starts, and what one step of it does to itself and to the shared state. -/
structure Machine (S R C I : Type) where
  init : R → C
  step : I → C → S → C × S

/-- The shared state and the calls, those that have returned among them. -/
structure World (S C : Type) where
  shared : S
  calls : List C

/-- A call starts, or a call makes a step; `input` is what it finds outside the shared state. -/
inductive Event (R I : Type)
  | start (request : R)
  | run (call : Nat) (input : I)

def World.idle (s : S) : World S C := { shared := s, calls := [] }

/-- The world after an event; a step of a call that does not exist is none. -/
def Machine.next (m : Machine S R C I) (w : World S C) : Event R I → World S C
  | .start request => { w with calls := w.calls ++ [m.init request] }
  | .run i input =>
    match w.calls[i]? with
    | none => w
    | some call =>
      { shared := (m.step input call w.shared).2
        calls := w.calls.set i (m.step input call w.shared).1 }

variable {m : Machine S R C I} {w : World S C}

theorem Machine.next_rule (P : World S C → Prop) {event : Event R I} (h : P w)
    (hs : ∀ request, event = .start request → P { w with calls := w.calls ++ [m.init request] })
    (hr : ∀ i input call, event = .run i input → w.calls[i]? = some call →
      P { shared := (m.step input call w.shared).2
          calls := w.calls.set i (m.step input call w.shared).1 }) :
    P (m.next w event) := by
  cases event with
  | start request => exact hs request rfl
  | run i input =>
    cases hg : w.calls[i]? with
    | none =>
      simp only [Machine.next, hg]
      exact h
    | some call =>
      simp only [Machine.next, hg]
      exact hr i input call rfl hg

/-- What every call holds: a new call holds it, and a step keeps it for its own call and for the
others. -/
theorem Machine.forall_calls_next (P : C → S → Prop) {event : Event R I}
    (h : ∀ call ∈ w.calls, P call w.shared) (hi : ∀ request, P (m.init request) w.shared)
    (hr : ∀ i input call, event = .run i input → w.calls[i]? = some call → P call w.shared →
      P (m.step input call w.shared).1 (m.step input call w.shared).2 ∧
        ∀ other, P other w.shared → P other (m.step input call w.shared).2) :
    ∀ call ∈ (m.next w event).calls, P call (m.next w event).shared := by
  refine next_rule (fun w => ∀ call ∈ w.calls, P call w.shared) h ?_ ?_
  · intro request _ call hcall
    rcases mem_append.mp hcall with hold | hnew
    · exact h call hold
    · rw [mem_singleton.mp hnew]
      exact hi request
  · intro i input call he hg call' hc'
    obtain ⟨hs, hother⟩ := hr i input call he hg (h call (mem_of_getElem? hg))
    rcases mem_or_eq_of_mem_set hc' with hold | hnew
    · exact hother call' (h call' hold)
    · rw [hnew]
      exact hs

/-- What some call is, and stays by its steps, is true of some call after every event. -/
theorem Machine.exists_calls_next (Q : C → Prop) {event : Event R I}
    (hstep : ∀ input call s, Q call → Q (m.step input call s).1) (h : ∃ call ∈ w.calls, Q call) :
    ∃ call ∈ (m.next w event).calls, Q call := by
  obtain ⟨call, hcall, hQ⟩ := h
  refine next_rule (fun w => ∃ call ∈ w.calls, Q call) ⟨call, hcall, hQ⟩ ?_ ?_
  · intro request _
    exact ⟨call, mem_append_left _ hcall, hQ⟩
  · intro i input call' _ hg
    obtain ⟨j, hj⟩ := mem_iff_getElem?.mp hcall
    by_cases hij : i = j
    · subst hij
      rw [hg] at hj
      cases hj
      have hlt := (List.getElem?_eq_some_iff.mp hg).1
      exact ⟨_, mem_set hlt _, hstep input call w.shared hQ⟩
    · rw [← getElem?_set_ne hij] at hj
      exact ⟨call, mem_of_getElem? hj, hQ⟩

/-! ### A call that is not interrupted -/

/-- The call, left alone, goes from one place to another; `input` stays the same. -/
inductive Machine.Reaches (m : Machine S R C I) (input : I) : C × S → C × S → Prop
  | refl (p : C × S) : Reaches m input p p
  | step {p q : C × S} (h : Reaches m input (m.step input p.1 p.2) q) : Reaches m input p q

variable {s : S} {calls : List C}

theorem Machine.next_last (input : I) (call : C) :
    m.next { shared := s, calls := calls ++ [call] } (.run calls.length input) =
      { shared := (m.step input call s).2, calls := calls ++ [(m.step input call s).1] } := by
  have hg : (calls ++ [call])[calls.length]? = some call := by simp
  simp only [Machine.next, hg, World.mk.injEq, true_and]
  rw [set_append_right _ _ (Nat.le_refl _), Nat.sub_self, set_cons_zero]

/-- What the call that started last reaches alone, it reaches in a run of the machine. -/
theorem Machine.Reaches.exists_run {input : I} {p q : C × S} (h : m.Reaches input p q) (calls : List C) :
    ∃ n, (replicate n (Event.run calls.length input)).foldl m.next ⟨p.2, calls ++ [p.1]⟩ =
      ⟨q.2, calls ++ [q.1]⟩ := by
  induction h with
  | refl p => exact ⟨0, rfl⟩
  | @step p q _ ih =>
    obtain ⟨n, hn⟩ := ih
    refine ⟨n + 1, ?_⟩
    rw [replicate_succ, foldl_cons, next_last]
    exact hn

end Bib.Lib.Calls
