import Mathlib.Data.List.Basic

/-!
# Bib.Lib.Wal

**A database in two files**: a main file of pages, and a write-ahead log of frames, each a page that has been
committed and is not yet in the main file. A page of the database is the newest frame for it, or else the page
of the main file. `content_main_iff` and `content_log_iff` say when the content survives that one of the two
files is exchanged under the other.
-/

namespace Bib.Lib.Wal

open List

variable {P : Type}

/-- The committed frames, the oldest first, and the number of pages after them. -/
structure Log (P : Type) where
  frames : List (Nat × P)
  size : Nat

def Log.page (log : Log P) (i : Nat) : Option P :=
  (log.frames.reverse.find? fun frame => frame.1 = i).map Prod.snd

/-- The two files; a log that was reset is none. -/
structure Db (P : Type) where
  main : List P
  log : Option (Log P)

/-- The newest frame for a page, if there is a log. -/
def Db.frame (db : Db P) (i : Nat) : Option P := db.log.bind fun log => log.page i

def Db.size (db : Db P) : Nat :=
  match db.log with
  | none => db.main.length
  | some log => log.size

/-- The pages; one that is in neither file is `none`. -/
def Db.content (db : Db P) : List (Option P) :=
  (List.range db.size).map fun i => (db.frame i).or db.main[i]?

theorem content_eq_iff {a b : Db P} : a.content = b.content ↔
      a.size = b.size ∧ ∀ i < a.size, (a.frame i).or a.main[i]? = (b.frame i).or b.main[i]? := by
  constructor
  · intro h
    have hs : a.size = b.size := by simpa [Db.content] using congrArg length h
    refine ⟨hs, fun i hi => ?_⟩
    have hg := congrArg (fun pages => pages[i]?) h
    simpa [Db.content, getElem?_range hi, getElem?_range (hs ▸ hi)] using hg
  · intro h
    rw [Db.content, Db.content, ← h.1]
    exact map_congr_left fun i hi => h.2 i (mem_range.mp hi)

/-- Every page that is not in the log is the same in both main files; without a log all pages are, and
there are equally many. -/
def SameMain (log : Option (Log P)) (main main' : List P) : Prop :=
  match log with
  | none => main = main'
  | some log => ∀ i < log.size, log.page i = none → main[i]? = main'[i]?

theorem content_main_iff (log : Option (Log P)) (main main' : List P) :
    (Db.mk main log).content = (Db.mk main' log).content ↔ SameMain log main main' := by
  rw [content_eq_iff]
  cases log with
  | none =>
    constructor
    · intro h
      refine ext_getElem? fun i => ?_
      by_cases hi : i < main.length
      · exact h.2 i hi
      · have hl : main.length = main'.length := h.1
        rw [getElem?_eq_none (by omega), getElem?_eq_none (by omega)]
    · intro h
      obtain rfl : main = main' := h
      exact ⟨rfl, fun _ _ => rfl⟩
  | some log =>
    constructor
    · intro h i hi hp
      have hb : (log.page i).or main[i]? = (log.page i).or main'[i]? := h.2 i hi
      rwa [hp, Option.none_or] at hb
    · intro h
      refine ⟨rfl, fun i hi => ?_⟩
      show (log.page i).or main[i]? = (log.page i).or main'[i]?
      cases hp : log.page i with
      | none => exact h i hi hp
      | some page => rfl

/-- The number of pages is the same, every frame of the new log is the page as it was, and a page that is
in the old log only is also in the main file. -/
structure SameLog (db : Db P) (log : Option (Log P)) : Prop where
  size : (Db.mk db.main log).size = db.size
  newer : ∀ i < db.size, ∀ page, (Db.mk db.main log).frame i = some page →
    (db.frame i).or db.main[i]? = some page
  older : ∀ i < db.size, (Db.mk db.main log).frame i = none → ∀ page, db.frame i = some page →
    db.main[i]? = some page

theorem content_log_iff (db : Db P) (log : Option (Log P)) :
    (Db.mk db.main log).content = db.content ↔ SameLog db log := by
  rw [content_eq_iff]
  constructor
  · intro h
    refine ⟨h.1, fun i hi page hp => ?_, fun i hi hnone page hp => ?_⟩
    · have hb := h.2 i (h.1 ▸ hi)
      rw [hp] at hb
      exact hb.symm
    · have hb := h.2 i (h.1 ▸ hi)
      rwa [hnone, hp] at hb
  · intro h
    refine ⟨h.size, fun i hi => ?_⟩
    have hi : i < db.size := h.size ▸ hi
    cases hnew : (Db.mk db.main log).frame i with
    | some page => rw [h.newer i hi page hnew, Option.some_or]
    | none =>
      rw [Option.none_or]
      cases hold : db.frame i with
      | some page => rw [h.older i hi hnew page hold, Option.some_or]
      | none => rw [Option.none_or]

end Bib.Lib.Wal
