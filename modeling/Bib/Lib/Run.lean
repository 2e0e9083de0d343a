import Mathlib.Data.List.Induction

/-!
# Bib.Lib.Run

**Runs of a state machine.** A machine is a function `step` from a state and an event to the next
state, and a run is a fold over a list of events. `AllSteps` says that every step of a run meets
a condition in the state it is taken in.

The rules reduce a statement about runs to one about a step: an invariant that steps keep,
or that steps meeting a condition keep, and two equivalences for exact conditions.
-/

namespace Bib.Lib.Run

open List

variable {S E : Type} {step : S → E → S} {ok : S → E → Prop} {s : S} {events : List E}

/-- Every step of the run meets the condition, in the state it is taken in. -/
def AllSteps (step : S → E → S) (ok : S → E → Prop) : S → List E → Prop
  | _, [] => True
  | s, event :: events => ok s event ∧ AllSteps step ok (step s event) events

def decidableAllSteps (step : S → E → S) (ok : S → E → Prop) [∀ s event, Decidable (ok s event)] :
    ∀ s events, Decidable (AllSteps step ok s events)
  | _, [] => isTrue trivial
  | s, event :: events =>
    match inferInstanceAs (Decidable (ok s event)), decidableAllSteps step ok (step s event) events with
    | isTrue h, isTrue h' => isTrue ⟨h, h'⟩
    | isFalse h, _ => isFalse fun hall => h hall.1
    | _, isFalse h' => isFalse fun hall => h' hall.2

instance [∀ s event, Decidable (ok s event)] : Decidable (AllSteps step ok s events) :=
  decidableAllSteps step ok s events

variable {ok' : S → E → Prop}

theorem AllSteps.and (h : AllSteps step ok s events) (h' : AllSteps step ok' s events) :
    AllSteps step (fun s event => ok s event ∧ ok' s event) s events := by
  induction events generalizing s with
  | nil => trivial
  | cons event events ih => exact ⟨⟨h.1, h'.1⟩, ih h.2 h'.2⟩

theorem AllSteps.imp (h : AllSteps step ok s events)
    (hi : ∀ s event, ok s event → ok' s event) : AllSteps step ok' s events := by
  induction events generalizing s with
  | nil => trivial
  | cons event events ih => exact ⟨hi s event h.1, ih h.2⟩

/-- What steps with the given events keep holds at the end of every run of such events. -/
theorem invariant (Inv : S → Prop) (P : E → Prop)
    (hstep : ∀ s event, P event → Inv s → Inv (step s event)) (h : Inv s)
    (hev : ∀ event ∈ events, P event) : Inv (events.foldl step s) := by
  induction events generalizing s with
  | nil => exact h
  | cons event events ih =>
    exact ih (hstep s event (hev event mem_cons_self) h) fun e he => hev e (mem_cons_of_mem _ he)

/-- What holds at the start with no events, and is kept by a step together with the events so far, holds
at the end of every run with all its events. -/
theorem history_invariant (Inv : List E → S → Prop) (h : Inv [] s)
    (hstep : ∀ done event, Inv done (done.foldl step s) →
      Inv (done ++ [event]) (step (done.foldl step s) event)) (events : List E) :
    Inv events (events.foldl step s) := by
  induction events using reverseRecOn with
  | nil => exact h
  | append_singleton done event ih =>
    rw [foldl_append]
    exact hstep done event ih

/-- What every step that meets the condition keeps holds in every state of such a run. -/
theorem invariant_of_allSteps (Inv : S → Prop)
    (hstep : ∀ s event, Inv s → ok s event → Inv (step s event)) (h : Inv s)
    (hok : AllSteps step ok s events) (n : Nat) : Inv ((events.take n).foldl step s) := by
  induction events generalizing s n with
  | nil =>
    rw [take_nil]
    exact h
  | cons event events ih =>
    cases n with
    | zero => exact h
    | succ n => exact ih (hstep s event h hok.1) hok.2 n

/-- If a step keeps `Good` exactly when it meets the condition, and `Good` never comes back, then
it holds at the end exactly when every step does. -/
theorem good_iff_allSteps (Inv Good : S → Prop) (P : E → Prop) (hi : ∀ s event, P event → Inv s → Inv (step s event))
    (hg : ∀ s event, P event → Inv s → (Good (step s event) ↔ Good s ∧ ok s event)) (h : Inv s)
    (hen : ∀ event ∈ events, P event) :
    Good (events.foldl step s) ↔ Good s ∧ AllSteps step ok s events := by
  induction events generalizing s with
  | nil => simp [AllSteps]
  | cons event events ih =>
    have hev := hen event mem_cons_self
    rw [foldl_cons, ih (hi s event hev h) fun e he => hen e (mem_cons_of_mem _ he),
      hg s event hev h, AllSteps, and_assoc]

/-- If a legal step from a good state keeps `Good` exactly when it meets the condition, then all
states of a run of legal steps are good exactly when every step does. -/
theorem forall_prefix_iff_of_legal {legal : S → E → Prop} (Good : S → Prop)
    (hg : ∀ s event, legal s event → Good s → (Good (step s event) ↔ ok s event)) (hs : Good s)
    (hl : AllSteps step legal s events) :
    (∀ done, done <+: events → Good (done.foldl step s)) ↔ AllSteps step ok s events := by
  induction events generalizing s with
  | nil =>
    refine ⟨fun _ => trivial, fun _ done hd => ?_⟩
    rw [prefix_nil.mp hd]
    exact hs
  | cons event events ih =>
    have hrest := fun hne => ih hne hl.2
    have hstep := hg s event hl.1 hs
    refine ⟨fun hall => ?_, fun hall done hd => ?_⟩
    · have hne : Good (step s event) := hall [event] (by simp)
      refine ⟨hstep.mp hne, (hrest hne).mp fun done hd => ?_⟩
      exact hall (event :: done) (by simpa using hd)
    · rcases prefix_cons_iff.mp hd with hn | ⟨rest, hc, hp⟩
      · rw [hn]
        exact hs
      · rw [hc]
        exact (hrest (hstep.mpr hall.1)).mpr hall.2 rest hp

theorem allSteps_of_invariant (Inv : S → Prop) (hi : ∀ s event, Inv s → Inv (step s event))
    (h : Inv s) : AllSteps step (fun s _ => Inv s) s events := by
  induction events generalizing s with
  | nil => trivial
  | cons event events ih => exact ⟨h, ih (hi s event h)⟩

/-- What steps that meet the condition keep holds before every step of a run of such steps. -/
theorem allSteps_and_invariant {Inv : S → Prop}
    (hi : ∀ s event, ok s event → Inv s → Inv (step s event)) (h : Inv s)
    (hok : AllSteps step ok s events) : AllSteps step (fun s event => Inv s ∧ ok s event) s events := by
  induction events generalizing s with
  | nil => trivial
  | cons event events ih => exact ⟨⟨h, hok.1⟩, ih (hi s event hok.1 h) hok.2⟩

/-- If a step from a good state keeps `Good` exactly when it meets the condition, then all states
of a run are good exactly when every step does. -/
theorem forall_prefix_iff_allSteps (Inv Good : S → Prop) (hi : ∀ s event, Inv s → Inv (step s event))
    (hg : ∀ s event, Inv s → Good s → (Good (step s event) ↔ ok s event)) (h : Inv s)
    (hs : Good s) :
    (∀ done, done <+: events → Good (done.foldl step s)) ↔ AllSteps step ok s events :=
  forall_prefix_iff_of_legal Good hg hs (allSteps_of_invariant Inv hi h)

theorem allSteps_append {events' : List E} : AllSteps step ok s (events ++ events') ↔
      AllSteps step ok s events ∧ AllSteps step ok (events.foldl step s) events' := by
  induction events generalizing s with
  | nil => simp [AllSteps]
  | cons event events ih => simp [AllSteps, ih, and_assoc]

theorem allSteps_of_forall_split
    (h : ∀ before event after, before ++ event :: after = events → ok (before.foldl step s) event) :
    AllSteps step ok s events := by
  induction events generalizing s with
  | nil => trivial
  | cons event events ih =>
    refine ⟨h [] event events rfl, ih fun before event' after hs => ?_⟩
    exact h (event :: before) event' after (by rw [cons_append, hs])

/-- Two conditions that agree in good states, of which the first leads from good states to good
states, are met by the same runs. -/
theorem allSteps_congr (Good : S → Prop) (hok : ∀ s event, Good s → (ok s event ↔ ok' s event))
    (hg : ∀ s event, Good s → ok s event → Good (step s event)) (hs : Good s) :
    AllSteps step ok s events ↔ AllSteps step ok' s events := by
  induction events generalizing s with
  | nil => exact Iff.rfl
  | cons event events ih =>
    have he := hok s event hs
    constructor
    · intro hall
      exact ⟨he.mp hall.1, (ih (hg s event hs hall.1)).mp hall.2⟩
    · intro hall
      have hf := he.mpr hall.1
      exact ⟨hf, (ih (hg s event hs hf)).mpr hall.2⟩

/-! ### What holds up to a certain step -/

/-- `P` holds in every state of the run up to the first step that meets `stop`. -/
def Until (step : S → E → S) (P : S → Prop) (stop : S → E → Prop) : S → List E → Prop
  | s, [] => P s
  | s, event :: events => P s ∧ (stop s event ∨ Until step P stop (step s event) events)

/-- `P` holds until a step meets `stop` if every other step of a run that meets the condition keeps
it. -/
theorem until_of_allSteps {P : S → Prop} {stop : S → E → Prop} (Inv : S → Prop)
    (hi : ∀ s event, Inv s → ok s event → Inv (step s event))
    (hk : ∀ s event, Inv s → ok s event → P s → stop s event ∨ P (step s event))
    (h : Inv s) (hP : P s) (hok : AllSteps step ok s events) : Until step P stop s events := by
  induction events generalizing s with
  | nil => exact hP
  | cons event events ih =>
    refine ⟨hP, ?_⟩
    rcases hk s event h hok.1 hP with hs | hn
    · exact .inl hs
    · exact .inr (ih (hi s event h hok.1) hn hok.2)

end Bib.Lib.Run
